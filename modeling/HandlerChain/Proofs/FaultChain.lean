import HandlerChain.Fault

/-!
# Failures inside failures

What a rejection that wraps others is taken for. The rejection of a failed addition carries the
fault of the hook, and that fault may have been made from a rejection again: `Unwraps` follows
such wrappings down to a rejection that wraps none. The category is read at the inner end, the
code at the outer one, the text holds all texts on the way, and the sources of the fault made
from the outermost rejection are walked through by `Walk`, which comes to an end. Main statement:
`Rejection.nested_failure`.
-/

namespace HandlerChain

/-- An error object that may stand behind another one. -/
inductive Cause where
  | fault (f : Fault)
  | rejection (r : Rejection)
  | foreign (display : String) (behind : List String)

namespace Cause

def display : Cause → String
  | .fault f => f.display
  | .rejection r => r.display
  | .foreign display _ => display

/-- What stands directly behind an error object: a stored cause where there is one, else the
rejection that a fault was made from. -/
def source? : Cause → Option Cause
  | .fault f =>
    match f.reason with
    | .none => none
    | .fault cause => some (.fault cause)
    | .rejection cause => some (.rejection cause)
    | .foreign display behind => some (.foreign display behind)
    | .origin r => some (.rejection r)
  | .rejection (.additionFailed _ f) => some (.fault f)
  | .rejection _ => none
  | .foreign _ [] => none
  | .foreign _ (display :: behind) => some (.foreign display behind)

/-- An error object of a foreign type, and those behind it. -/
def foreigners (display : String) : List String → List Cause
  | [] => [.foreign display []]
  | next :: behind => .foreign display (next :: behind) :: foreigners next behind

/-- From the given object on, source by source, the listed ones are met and then no more. -/
inductive Walk : Option Cause → List Cause → Prop
  | stop : Walk none []
  | step {c : Cause} {met : List Cause} (h : Walk c.source? met) : Walk (some c) (c :: met)

theorem Walk.det {c : Option Cause} {met met' : List Cause} (h : Walk c met)
    (h' : Walk c met') : met = met' := by
  induction h generalizing met' with
  | stop => cases h'; rfl
  | step _ ih =>
    cases h' with
    | step h' => rw [ih h']

theorem walk_foreigners (display : String) (behind : List String) :
    Walk (some (.foreign display behind)) (foreigners display behind) := by
  induction behind generalizing display with
  | nil => exact .step .stop
  | cons next behind ih => exact .step (ih next)

theorem map_display_foreigners (shown : String) (behind : List String) :
    (foreigners shown behind).map Cause.display = shown :: behind := by
  induction behind generalizing shown with
  | nil => rfl
  | cons next behind ih => exact congrArg (shown :: ·) (ih next)

end Cause

mutual

/-- The error objects behind a rejection, the nearest first. -/
def Rejection.causes : Rejection → List Cause
  | .additionFailed _ f => .fault f :: Fault.causes f
  | _ => []

def Fault.causes : Fault → List Cause
  | .mk _ _ _ reason => Reason.causes reason

def Reason.causes : Reason → List Cause
  | .none => []
  | .fault f => .fault f :: Fault.causes f
  | .rejection r => .rejection r :: Rejection.causes r
  | .foreign display behind => Cause.foreigners display behind
  | .origin r => .rejection r :: Rejection.causes r

end

mutual

theorem Rejection.walk_causes : (r : Rejection) → Cause.Walk (Cause.rejection r).source? r.causes
  | .additionFailed _ f => .step (Fault.walk_causes f)
  | .inboundAmbiguous _ | .outboundAmbiguous _ | .sharable _ | .alreadyInitialized _
  | .notInitialized _ | .alreadyAttached _ | .notAttached _ | .halfAbsent _ _
  | .halfRemoved _ _ | .promiseResolved | .duplicateName _ | .handlerNotFound _
  | .handlerNotSharable _ | .contextDetached _ | .channelClosed => .stop

/-- Following the sources of a fault comes to an end, whatever is stored in it. -/
theorem Fault.walk_causes : (f : Fault) → Cause.Walk (Cause.fault f).source? f.causes
  | .mk _ _ _ .none => .stop
  | .mk _ _ _ (.fault f) => .step (Fault.walk_causes f)
  | .mk _ _ _ (.rejection r) => .step (Rejection.walk_causes r)
  | .mk _ _ _ (.foreign display behind) => Cause.walk_foreigners display behind
  | .mk _ _ _ (.origin r) => .step (Rejection.walk_causes r)

end

mutual

theorem Rejection.chain_eq : (r : Rejection) → r.chain = r.causes.map Cause.display
  | .additionFailed _ f => congrArg (f.display :: ·) (Fault.chain_eq f)
  | .inboundAmbiguous _ | .outboundAmbiguous _ | .sharable _ | .alreadyInitialized _
  | .notInitialized _ | .alreadyAttached _ | .notAttached _ | .halfAbsent _ _
  | .halfRemoved _ _ | .promiseResolved | .duplicateName _ | .handlerNotFound _
  | .handlerNotSharable _ | .contextDetached _ | .channelClosed => rfl

theorem Fault.chain_eq : (f : Fault) → f.chain = f.causes.map Cause.display
  | .mk _ _ _ .none => rfl
  | .mk _ _ _ (.fault f) => congrArg (f.display :: ·) (Fault.chain_eq f)
  | .mk _ _ _ (.rejection r) => congrArg (r.display :: ·) (Rejection.chain_eq r)
  | .mk _ _ _ (.foreign display behind) => (Cause.map_display_foreigners display behind).symm
  | .mk _ _ _ (.origin r) => congrArg (r.display :: ·) (Rejection.chain_eq r)

end

/-! ## Wrapped rejections -/

theorem Category.code_ne_closedCode (c : Category) : c.code ≠ closedCode := by
  cases c <;> decide

namespace Fault

variable {f : Fault} {r : Rejection}

theorem eq_mk_of_origin? (h : f.origin? = some r) :
    f = .mk f.ident f.code f.message (.origin r) := by
  obtain ⟨i, code, message, reason⟩ := f
  cases reason <;> cases h
  rfl

theorem origin?_eq_none (h : ∀ i code message r, f ≠ .mk i code message (.origin r)) :
    f.origin? = none := by
  cases hf : f.origin? with
  | none => rfl
  | some r => exact absurd (eq_mk_of_origin? hf) (h _ _ _ _)

/-- The fault does not come from a rejection, or it is as the conversion makes it: there is
no other way to make a fault from one. -/
def Genuine (f : Fault) : Prop := ∀ r, f.origin? = some r → f = r.toFault f.ident

theorem genuine_toFault (r : Rejection) (ident : Nat) : (r.toFault ident).Genuine := by
  rintro _ ⟨⟩
  rfl

theorem causes_of_origin? (h : f.origin? = some r) : f.causes = .rejection r :: r.causes := by
  rw [eq_mk_of_origin? h]
  rfl

end Fault

/-- The text `whole` ends in the text `part`. -/
def EndsIn (whole part : String) : Prop := ∃ before, whole = before ++ part

theorem EndsIn.trans {a b c : String} (h : EndsIn a b) (h' : EndsIn b c) : EndsIn a c := by
  obtain ⟨before, rfl⟩ := h
  obtain ⟨before', rfl⟩ := h'
  exact ⟨before ++ before', (String.append_assoc ..).symm⟩

namespace Rejection

variable {r last : Rejection} {inside : List (Fault × Rejection)} {name : String} {f : Fault}

/-- The rejection from which the fault of a failed addition was made. A stored cause of the
fault does not count. -/
def wrapped? : Rejection → Option Rejection
  | .additionFailed _ f => f.origin?
  | _ => none

/-- From wrapping to wrapping `r` leads to `last`, which wraps nothing: the listed faults are
passed on the way, each with the rejection that it was made from. -/
inductive Unwraps : Rejection → List (Fault × Rejection) → Rejection → Prop
  | plain {r : Rejection} (h : r.wrapped? = none) : Unwraps r [] r
  | wrapping {name : String} {f : Fault} {r last : Rejection} {inside : List (Fault × Rejection)}
      (h : f.origin? = some r) (rest : Unwraps r inside last) :
      Unwraps (.additionFailed name f) ((f, r) :: inside) last

theorem wrapped?_eq_none (h : ∀ name f, r ≠ .additionFailed name f) : r.wrapped? = none := by
  cases r <;> first | rfl | exact absurd rfl (h _ _)

/-- Any number of wrappings comes to an end. -/
theorem exists_unwraps (r : Rejection) : ∃ inside last, r.Unwraps inside last := by
  induction r using category.induct with
  | case1 | case2 => exact ⟨[], _, .plain rfl⟩
  | case3 name i code message r ih =>
    obtain ⟨inside, last, h⟩ := ih
    exact ⟨_, last, .wrapping rfl h⟩
  | case4 name f hf => exact ⟨[], _, .plain (Fault.origin?_eq_none hf)⟩
  | case5 r _ _ _ hr => exact ⟨[], r, .plain (wrapped?_eq_none hr)⟩

theorem category_of_origin? (h : f.origin? = some r) :
    (additionFailed name f).category = r.category := by
  rw [Fault.eq_mk_of_origin? h]
  rfl

theorem category_of_origin?_none (h : f.origin? = none) :
    (additionFailed name f).category = .handler := by
  obtain ⟨i, code, message, reason⟩ := f
  cases reason <;> first | rfl | cases h

/-- Without anything wrapped, the category of a failed hook stands for just that. -/
theorem category_eq_handler_iff (h : r.wrapped? = none) :
    r.category = .handler ↔ ∃ name f, r = .additionFailed name f ∧ f.origin? = none := by
  refine ⟨fun hr => ?_, fun ⟨name, f, hr, hf⟩ => hr ▸ category_of_origin?_none hf⟩
  cases r with
  | additionFailed name f => exact ⟨name, f, rfl, h⟩
  | _ => cases hr

theorem code_eq_closedCode_iff (r : Rejection) : r.code = closedCode ↔ r = .channelClosed := by
  refine ⟨fun h => ?_, fun h => h ▸ rfl⟩
  by_cases hr : r = .channelClosed
  · exact hr
  · have hcode : r.code = r.category.code := code.eq_2 r hr
    exact absurd (hcode ▸ h) r.category.code_ne_closedCode

namespace Unwraps

theorem last_plain (h : r.Unwraps inside last) : last.wrapped? = none := by
  induction h with
  | plain h => exact h
  | wrapping _ _ ih => exact ih

theorem category_eq (h : r.Unwraps inside last) : r.category = last.category := by
  induction h with
  | plain => rfl
  | wrapping h _ ih => exact (category_of_origin? h).trans ih

/-- Behind a rejection stand in turn each wrapped fault and the rejection inside it, and then
what stands behind the innermost one. -/
theorem causes_eq (h : r.Unwraps inside last) :
    r.causes = inside.flatMap (fun w => [.fault w.1, .rejection w.2]) ++ last.causes := by
  induction h with
  | plain => rfl
  | @wrapping name f r last inside h _ ih =>
    have hf : (additionFailed name f).causes = .fault f :: f.causes := rfl
    rw [hf, Fault.causes_of_origin? h, ih]
    rfl

end Unwraps

theorem endsIn_source (name : String) (f : Fault) :
    EndsIn (additionFailed name f).display f.display :=
  ⟨"handler `" ++ name ++ "` failed in on_handler_added: ", rfl⟩

theorem endsIn_origin (hf : f.Genuine) (h : f.origin? = some r) : EndsIn f.display r.display := by
  rw [hf r h]
  exact ⟨r.code ++ ": ", rfl⟩

/-- The text of a rejection ends in the texts of all that it wraps. -/
theorem Unwraps.endsIn (h : r.Unwraps inside last) (hgenuine : ∀ w ∈ inside, w.1.Genuine) :
    (∀ w ∈ inside, EndsIn r.display w.1.display ∧ EndsIn r.display w.2.display) ∧
      ∀ name f, last = .additionFailed name f → EndsIn r.display f.display := by
  induction h with
  | plain => exact ⟨nofun, fun name f hr => hr ▸ endsIn_source name f⟩
  | @wrapping name f r last inside h _ ih =>
    have hr : EndsIn (additionFailed name f).display r.display :=
      (endsIn_source name f).trans (endsIn_origin (hgenuine _ List.mem_cons_self) h)
    obtain ⟨hin, hlast⟩ := ih fun w hw => hgenuine w (List.mem_cons_of_mem _ hw)
    refine ⟨fun w hw => ?_, fun n g hg => hr.trans (hlast n g hg)⟩
    rcases List.mem_cons.1 hw with rfl | hw
    · exact ⟨endsIn_source name f, hr⟩
    · exact ⟨hr.trans (hin w hw).1, hr.trans (hin w hw).2⟩

/-- **What a rejection that wraps others is taken for.** Every rejection leads, through the
faults of failed additions that were made from rejections, to one that wraps none. The category
is that of this innermost rejection, and it is the category of a failed hook just if a fault
without a rejection stands there; the code is that of a closed channel just for the rejection of
one, and else that of the category. The fault made from the rejection gives it back, with its
code and its text, and the text ends in all texts from inside; the walk along the sources of that
fault meets the rejection, then each wrapped fault and the rejection inside it in turn, and then
only what stands behind the innermost one. -/
theorem nested_failure (r : Rejection) (ident : Nat) :
    (∃ inside last, r.Unwraps inside last) ∧ ∀ inside last, r.Unwraps inside last →
      (r.category = last.category ∧
        (r.category = .handler ↔ ∃ name f, last = .additionFailed name f ∧ f.origin? = none)) ∧
      ((r.code = closedCode ↔ r = .channelClosed) ∧
        (r ≠ .channelClosed → r.code = r.category.code)) ∧
      ((r.toFault ident).origin? = some r ∧ (r.toFault ident).code = r.code ∧
        (r.toFault ident).message = r.display) ∧
      ((∀ w ∈ inside, w.1.Genuine) →
        (∀ w ∈ inside, EndsIn r.display w.1.display ∧ EndsIn r.display w.2.display) ∧
          ∀ name f, last = .additionFailed name f → EndsIn r.display f.display) ∧
      ∃ stored, Cause.Walk (Cause.rejection last).source? stored ∧
        Cause.Walk (Cause.fault (r.toFault ident)).source?
          (.rejection r :: inside.flatMap (fun w => [.fault w.1, .rejection w.2]) ++ stored) ∧
        (r.toFault ident).chain = (Cause.rejection r ::
          inside.flatMap (fun w => [.fault w.1, .rejection w.2]) ++ stored).map Cause.display := by
  refine ⟨r.exists_unwraps, fun inside last h => ⟨⟨h.category_eq, ?_⟩,
    ⟨r.code_eq_closedCode_iff, code.eq_2 r⟩, ⟨rfl, rfl, rfl⟩, h.endsIn,
    last.causes, last.walk_causes, ?_⟩⟩
  · rw [h.category_eq]
    exact category_eq_handler_iff h.last_plain
  · have hcauses : (r.toFault ident).causes = .rejection r ::
        inside.flatMap (fun w => [.fault w.1, .rejection w.2]) ++ last.causes :=
      congrArg (Cause.rejection r :: ·) h.causes_eq
    exact ⟨hcauses ▸ Fault.walk_causes _, hcauses ▸ Fault.chain_eq _⟩

/-- A hook failed with a fault of its own, on top of a foreign error; the failed addition was
handed on as a fault and made a second addition fail. -/
theorem nested_failure_at_second_addition :
    let boom := Fault.mk 0 "app.boom" "boom" (.foreign "io" ["reset"])
    let first := Rejection.additionFailed "codec" boom
    let second := Rejection.additionFailed "outer" (first.toFault 1)
    second.Unwraps [(first.toFault 1, first)] first ∧ second.category = .handler ∧
      EndsIn second.display boom.display ∧
      Cause.Walk (Cause.fault (second.toFault 2)).source?
        [.rejection second, .fault (first.toFault 1), .rejection first, .fault boom,
          .foreign "io" ["reset"], .foreign "reset" []] := by
  intro boom first second
  have hunwraps : second.Unwraps [(first.toFault 1, first)] first := .wrapping rfl (.plain rfl)
  obtain ⟨⟨_, hcategory⟩, _, _, hends, stored, hstored, hwalk, _⟩ :=
    (nested_failure second 2).2 _ _ hunwraps
  have hgenuine : ∀ w ∈ [(first.toFault 1, first)], w.1.Genuine := by
    rintro w hw
    rw [List.mem_singleton.1 hw]
    exact Fault.genuine_toFault first 1
  refine ⟨hunwraps, hcategory.2 ⟨"codec", boom, rfl, rfl⟩,
    (hends hgenuine).2 "codec" boom rfl, ?_⟩
  rw [hstored.det first.walk_causes] at hwalk
  exact hwalk

end Rejection

end HandlerChain
