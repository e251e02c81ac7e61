import HandlerChain.Proofs.Aftermath

/-!
# Every call does what the marks call for

The trail of marks is looked into where exceptions are handed on, and where hooks come back. A
procedure that does neither finds the trail quiet, and leaves it so; where the handler of a removed
stage fails, a warning may be the last thing that happened, and only other notices may follow it
(`aftermath_kept`).
-/

namespace HandlerChain

/-! ## What lasts -/

/-- No identity of a fault is given out again, and stages keep their names and handlers. -/
structure Store.Lasts (a b : Store) : Prop where
  faults : a.faults ≤ b.faults
  stage : ∀ s, a.HasStage s → b.HasStage s ∧ (b.stage s).name = (a.stage s).name ∧
    (b.stage s).handler = (a.stage s).handler

theorem Store.Lasts.refl (a : Store) : a.Lasts a := ⟨Nat.le_refl _, fun _ h => ⟨h, rfl, rfl⟩⟩

theorem Store.Lasts.trans {a b c : Store} (h : a.Lasts b) (h' : b.Lasts c) : a.Lasts c where
  faults := Nat.le_trans h.faults h'.faults
  stage s hs := by
    obtain ⟨hs', hname, hhandler⟩ := h.stage s hs
    obtain ⟨hs'', hname', hhandler'⟩ := h'.stage s hs'
    exact ⟨hs'', hname'.trans hname, hhandler'.trans hhandler⟩

/-- All that was seen so far lasts. -/
def Lasting (sc : Scene) : Prop := sc.stores.IsChain Store.Lasts

def lasting : Contract := .steady Lasting fun sc sc' => sc.store.Lasts sc'.store

section
variable {sc : Scene}

theorem Lasting.change (h : Lasting sc) {store : Store} (hlasts : sc.store.Lasts store) :
    Lasting { sc with store } := by
  obtain ⟨hpast, hlast⟩ := isChain_concat.1 h
  exact isChain_concat.2 ⟨hpast, fun st hst => (hlast st hst).trans hlasts⟩

theorem Lasting.add (h : Lasting sc) {m : Mark} (hm : m.store = sc.store) :
    Lasting (sc.add m) := by
  unfold Lasting
  rw [Scene.stores_add hm]
  refine isChain_concat.2 ⟨h, fun st hst => ?_⟩
  rw [Scene.stores, List.getLast?_concat] at hst
  cases hst
  exact .refl _

end

theorem lasting_fair : lasting.Fair :=
  Contract.steady_fair (fun _ => .refl _) (fun h h' => h.trans h') fun hm _ h =>
    ⟨h.add hm, .refl _⟩

theorem lasting_ignores : lasting.Ignores (.except [] []) := by
  refine Contract.steady_ignores (fun _ => .refl _) (fun h h' => h.trans h')
    (fun hleaves h => ?_) fun hm _ h => ⟨h.add hm, .refl _⟩
  have hlasts := Store.Lasts.mk (hleaves .numbering (by decide)) (hleaves .naming (by decide))
  exact ⟨h.change hlasts, hlasts⟩

theorem lasting_kept {quiet : Request → Prop} : lasting.Kept quiet := by
  intro caller c refs sc _ hpre
  refine ((Call.procedure_within c _).subset ?_).keeps lasting_ignores .rfl hpre
  cases c with
  | hook h hk ctx =>
    rcases h with _ | _ <;> rcases hk with _ | _ | ⟨_ | _⟩ <;>
      (dsimp only [Call.footprint]; decide)
  | _ => dsimp only [Call.footprint]; decide

/-! ## The contract -/

/-- The last mark is the call. -/
structure Called (c : Call) (sc : Scene) : Prop where
  trail : Trail sc
  last : ∃ caller v, sc.past.getLast? = some (.call caller c v)

theorem Trail.called {sc : Scene} {caller : Caller} {c : Call} {refs : List Ref} (h : Trail sc)
    (hm : ∀ m ∈ sc.past.getLast?, m.Leads (.call caller c ⟨sc.store, refs⟩)) :
    Called c (sc.atCall caller c refs) :=
  ⟨h.add hm, _, _, List.getLast?_concat⟩

/-- What the marks call for was done by the end of each call, and the user is not called upon while
anything is left to do. -/
def aftermath : Contract where
  inv := Quiet
  rel _ _ := True
  pre c _ := Called c
  post c _ _ r sc' := ∀ n caller refs, Trail (sc'.atDone n caller c r refs)

/-- What is known besides: how stages hang together, and what lasts. -/
def background : Contract := wiring.and lasting

theorem aftermath_fair : aftermath.Fair where
  refl _ := trivial
  trans _ _ := trivial
  call _ _ hinv :=
    hinv.trail.called fun m hm => (hinv.last m hm).leads (Mark.plain_call (.inl rfl))
  done _ _ hpost := ⟨quiet_add (hpost _ _ _) (Mark.idle_done_user _), trivial⟩

/-- Exceptions are handed on to stages and halves, and by passing them on. -/
theorem Call.exception_errand {c : Call} {k : Errand} (h : c.errand? = some k)
    (hk : k ∈ (Footprint.except [] [.stageEvent, .halfEvent, .propagate]).errands) :
    c.exception? = none := by
  unfold Call.exception?
  split
  · rename_i ctx
    cases ctx with
    | stage s =>
      cases h
      exact absurd hk (by decide)
    | delegate d =>
      cases h
      exact absurd hk (by decide)
    | foreign f => cases h
  · cases h
    exact absurd hk (by decide)
  · rename_i p e
    rcases e with (_ | _ | _ | _ | _ | _ | _ | _ | _) | _
    case inbound.exception => cases h
    all_goals rfl
  · rfl

theorem aftermath_ignores :
    aftermath.Ignores (.except [] [.stageEvent, .halfEvent, .propagate]) where
  refl _ := trivial
  trans _ _ := trivial
  leaves _ hinv := ⟨hinv.change _, trivial⟩
  call {sc c} refs hF hinv := by
    obtain ⟨k, hk, hc⟩ := hF
    have hnone := Call.exception_errand hc hk
    exact hinv.trail.called fun m hm => (hinv.last m hm).leads (Mark.plain_call (.inr hnone))
  done {sc sc' c refs r} hF _ _ hpost := by
    obtain ⟨k, hk, hc⟩ := hF
    refine ⟨quiet_add (hpost _ _ _) (Mark.idle_done fun hevent => ?_), trivial⟩
    cases hc.symm.trans hevent
    exact absurd hk (by decide)
  ask r _ hinv := hinv.add (Mark.plain_ask r) (Mark.idle_ask r)
  answer _ _ _ hinv' _ := ⟨hinv'.add (Mark.plain_answer _ _) (Mark.idle_answer _ _), trivial⟩

namespace Proc

variable {α β : Type} {quiet : Request → Prop} {held : List Ref} {sc : Scene}
  {p : PipelineId} {s t : StageId}

/-- From the scene on the procedure does what the marks call for, and ends as `Q` says. -/
abbrev Follows (quiet : Request → Prop) (held : List Ref) (q : Proc α) (Q : α → Scene → Prop)
    (sc : Scene) : Prop :=
  q.Meets quiet aftermath (background.and aftermath) held Q sc

/-- A procedure that has nothing to do with exceptions. -/
theorem Within.staysQuiet {q : Proc α} {F : Footprint} (h : q.Within F sc.store) (hquiet : Quiet sc)
    (hF : F ⊆ .except [] [.stageEvent, .halfEvent, .propagate]) :
    q.Follows quiet held (fun _ => Quiet) sc :=
  Meets.mono ((h.subset hF).keeps aftermath_ignores Contract.and_refines_right hquiet)
    fun _ _ h => h.1

/-- A hook that is called where that is due, and comes back. -/
theorem hook_follows {Q : Outcome → Scene → Prop} {h : Handler} {hk : Hook} {ctx : Context}
    (hadded : hk ≠ .added) (htrail : Trail sc)
    (hcall : ∀ refs, held ⊆ refs → ∀ m ∈ sc.past.getLast?,
      m.Leads (.call .library (.hook h hk ctx) ⟨sc.store, refs⟩))
    (hQ : ∀ r refs (sc' : Scene), sc.store.Grown sc'.store → sc.store.Lasts sc'.store →
      sc'.store.Wired none → Trail (sc'.atDone sc.past.length .library (.hook h hk ctx) r refs) →
      Q r (sc'.atDone sc.past.length .library (.hook h hk ctx) r refs)) :
    (hook h hk ctx).Follows quiet held Q sc := by
  intro refs hrefs
  refine ⟨htrail.called (hcall refs hrefs.subset), fun r sc' _ hpost => ?_⟩
  obtain ⟨⟨⟨hgrown, hwired, -⟩, -, hlasts⟩, hdone⟩ := hpost
  refine hQ r refs sc' hgrown.1 hlasts ?_ (hdone _ _ _)
  cases hk with
  | added => exact absurd rfl hadded
  | removed => exact hwired
  | event e => exact hwired

/-! ### Along a chain -/

/-- A stage whose pipeline is held may be given an exception that was raised by the last mark. -/
theorem handsOn_stage {m : Mark} {h : Handler} {e : Event} {refs : List Ref} {st : Store}
    (hp : .pipeline (st.stage t).pipeline ∈ held) (hrefs : held ⊆ refs)
    (hm : ∀ caller c v, m = .call caller c v → v.held ⊆ held ∧ st = v.store) :
    m.HandsOn (.hook h (.event e) (.stage t)) ⟨st, refs⟩ where
  held caller c v hc := by
    obtain ⟨hheld, hsame⟩ := hm caller c v hc
    exact ⟨List.Subset.trans hheld hrefs, hsame⟩
  tied h e s heq := by
    cases heq
    exact hrefs hp

/-- What a call hands on to anything but a stage. -/
theorem handsOn_inside {caller : Caller} {c c' : Call} {refs : List Ref} {st : Store}
    (hc : ∀ h e s, c' ≠ .hook h (.event e) (.stage s)) (hrefs : held ⊆ refs) :
    (Mark.call caller c ⟨st, held⟩).HandsOn c' ⟨st, refs⟩ where
  held caller' d v heq := by
    cases heq
    exact ⟨hrefs, rfl⟩
  tied h e s heq := absurd heq (hc h e s)

/-- A stage that is asked to handle an exception does so, or there is a warning. -/
theorem handleAt_settles {f : Fault} (ht : sc.store.HasStage t) (htrail : Trail sc)
    (hcall : ∀ refs, held ⊆ refs → ∀ m ∈ sc.past.getLast?,
      m.Leads (.call .library (sc.store.handling t f) ⟨sc.store, refs⟩)) :
    (handleAt t f).Follows quiet held (fun _ => Settled) sc := by
  simp only [handleAt, bind_eq, Follows, meets_bind, meets_get]
  refine hook_follows (by simp) htrail hcall fun r refs sc' _ hlasts _ hdone => ?_
  split
  · exact (quiet_add hdone Mark.idle_done_ok).settled
  · rw [meets_note]
    exact settled_warn (hlasts.stage t ht).2.1 hdone

/-- What the failure of an event's hook leaves. -/
theorem fate_of_done {n : Nat} {h : Handler} {e : Event} {f : Fault} {refs : List Ref}
    (hback : e.comesBack sc.store t = true) :
    ∀ m ∈ (sc.atDone n .library (.hook h (.event e) (.stage t)) (.error f) refs).past.getLast?,
      m.fate = .call (sc.store.handling t f) := by
  intro m hm
  obtain rfl := Scene.last_atDone hm
  exact if_pos hback

theorem offerInbound_settles {e : Inbound} (ht : sc.store.HasStage t)
    (hp : .pipeline (sc.store.stage t).pipeline ∈ held) (htrail : Trail sc)
    (hcall : ∀ refs, held ⊆ refs → ∀ m ∈ sc.past.getLast?,
      m.Leads (.call .library (.hook (sc.store.stage t).handler (.event (.inbound e)) (.stage t))
        ⟨sc.store, refs⟩)) :
    (offerInbound t e).Follows quiet held (fun _ => Settled) sc := by
  simp only [offerInbound, bind_eq, Follows, meets_bind, meets_get]
  refine hook_follows (by simp) htrail hcall fun r refs sc' hgrown hlasts _ hdone => ?_
  split
  · exact (quiet_add hdone Mark.idle_done_ok).settled
  · rename_i f
    split
    · rename_i hexception
      obtain ⟨g, rfl⟩ : ∃ g, e = .exception g := by
        cases e <;> first | exact ⟨_, rfl⟩ | cases hexception
      rw [meets_note]
      exact settled_warn (hlasts.stage t ht).2.1 hdone
    · rename_i hexception
      have hback : (Event.inbound e).comesBack sc'.store t = true := by
        simpa [Event.comesBack] using hexception
      obtain ⟨ht', hpipeline, -⟩ := hgrown.stage t ht
      rw [meets_bind, meets_note]
      refine handleAt_settles ht' hdone fun refs' hrefs m hm => ?_
      have hp' : .pipeline (sc'.store.stage t).pipeline ∈ held := by rwa [hpipeline]
      refine Mark.leads_of_fate (fate_of_done hback m hm) (handsOn_stage hp' hrefs ?_)
      obtain rfl := Scene.last_atDone hm
      intro caller c v hc
      cases hc

/-- An inbound event goes to the first stage that takes it, or to the tail. -/
theorem deliverInbound_follows {Q : Scene → Prop} {start : Option StageId} {e : Inbound}
    (hp : .pipeline p ∈ held) (htrail : Trail sc) (hwired : sc.store.Wired none)
    (hQ : ∀ sc', Settled sc' → Q sc')
    (hlost : ∀ u, stagesAfter (sc.store.pipeline p).chain start = .error u → Quiet sc)
    (hoffer : ∀ stages t, stagesAfter (sc.store.pipeline p).chain start = .ok stages →
      stages.find? (sc.store.takesPart .inbound) = some t →
        .pipeline (sc.store.stage t).pipeline ∈ held → ∀ refs, held ⊆ refs →
          ∀ m ∈ sc.past.getLast?, m.Leads (.call .library (.hook (sc.store.stage t).handler
            (.event (.inbound e)) (.stage t)) ⟨sc.store, refs⟩))
    (htail : ∀ stages held', stagesAfter (sc.store.pipeline p).chain start = .ok stages →
      stages.find? (sc.store.takesPart .inbound) = none →
        (reachTail p e).Follows quiet held' (fun _ => Q) sc) :
    (deliverInbound p start e).Follows quiet held (fun _ => Q) sc := by
  simp only [deliverInbound, bind_eq, Follows, meets_bind, meets_get, meets_holding]
  split
  · rename_i u hu
    rw [meets_note]
    exact hQ _ ((hlost u hu).change _).settled
  · rename_i stages hstages
    split
    · rename_i t ht
      have hmem : t ∈ (sc.store.pipeline p).chain :=
        mem_of_stagesAfter hstages (List.mem_of_find?_eq_some ht)
      obtain ⟨hhas, hpipeline⟩ := hwired.chain p t hmem
      have hp' : .pipeline (sc.store.stage t).pipeline ∈ held := hpipeline.symm ▸ hp
      refine Meets.mono (offerInbound_settles hhas (List.mem_append_right _ hp') htrail ?_)
        fun _ => hQ
      exact fun refs hrefs => hoffer stages t hstages ht hp' refs
        (List.Subset.trans (List.subset_append_right _ _) hrefs)
    · rename_i hnone
      exact htail stages _ hstages hnone

/-- The tail keeps the exception that was on its way there, if it keeps none. -/
theorem reachTail_rests {f : Fault} (htrail : Trail sc)
    (hlast : ∀ m ∈ sc.past.getLast?, m.store = sc.store ∧ m.fate = .tail p f) :
    (reachTail p (.exception f)).Follows quiet held (fun _ => Rests) sc := by
  have rests {store : Store} (hstore : store = sc.store.atTail p f) :
      Rests { sc with store } := by
    refine ⟨htrail, fun m hm m' hplain hlater => ?_⟩
    obtain ⟨hsame, hfate⟩ := hlast m hm
    exact Mark.leads_of_tail hfate hplain (by rw [hlater, hstore, hsame])
  simp only [reachTail, bind_eq, Follows, meets_bind, meets_get]
  split
  · rename_i hfree
    rw [meets_modify]
    exact rests (by simp only [Store.atTail, hfree])
  · rename_i g hpending
    rw [meets_note]
    exact rests (by simp only [Store.atTail, hpending])

/-- An event that was let in, passed on or raised by the last mark. -/
theorem deliverInbound_rests {start : Option StageId} {e : Inbound} (hp : .pipeline p ∈ held)
    (htrail : Trail sc) (hwired : sc.store.Wired none)
    (hheld : ∀ m ∈ sc.past.getLast?, ∀ caller c v, m = .call caller c v → v.held ⊆ held)
    (hlast : ∀ m ∈ sc.past.getLast?, m.store = sc.store ∧ m.demands? = none ∧ m.spoilt? = none ∧
      m.fate = sc.store.fateAfter p start e) :
    (deliverInbound p start e).Follows quiet held (fun _ => Rests) sc := by
  have idle (h : sc.store.fateAfter p start e = .idle) : Quiet sc := by
    refine ⟨htrail, fun m hm => ?_⟩
    obtain ⟨-, hdemands, hspoilt, hfate⟩ := hlast m hm
    exact ⟨hfate.trans h, hdemands, hspoilt⟩
  cases he : (Event.inbound e).exception? with
  | some f =>
    obtain rfl : e = .exception f := Event.inbound.inj (Event.eq_of_exception he)
    refine deliverInbound_follows hp htrail hwired (fun _ h => h.rests) ?_ ?_ ?_
    · intro u hu
      refine idle ?_
      simp only [Store.fateAfter, hu]
    · intro stages t hstages ht hp' refs hrefs m hm
      obtain ⟨hsame, -, -, hfate⟩ := hlast m hm
      refine Mark.leads_of_fate ?_ (handsOn_stage hp' hrefs fun caller c v hc => ?_)
      · rw [hfate]
        simp only [Store.fateAfter, hstages, ht]
        rfl
      · refine ⟨hheld m hm caller c v hc, ?_⟩
        subst hc
        exact hsame.symm
    · intro stages held' hstages hnone
      have hfate : sc.store.fateAfter p start (.exception f) = .tail p f := by
        simp only [Store.fateAfter, hstages, hnone]
      refine reachTail_rests htrail fun m hm => ?_
      obtain ⟨hsame, -, -, hm⟩ := hlast m hm
      exact ⟨hsame, hm.trans hfate⟩
  | none =>
    have hquiet : Quiet sc := idle (Store.fateAfter_idle he _ _ _)
    refine deliverInbound_follows hp htrail hwired (fun _ h => h.rests) (fun _ _ => hquiet) ?_ ?_
    · intro stages t _ _ _ _ _ m hm
      exact (hquiet.last m hm).leads (Mark.plain_call (.inr he))
    · intro stages held' _ _
      exact Meets.mono ((reachTail_within p e).staysQuiet hquiet (by decide)) fun _ _ h => h.rests

/-- The exception of a failed removal is a new one. -/
theorem deliverInbound_settles {start : Option StageId} {f : Fault} (hp : .pipeline p ∈ held)
    (hquiet : Quiet sc) (hwired : sc.store.Wired none)
    (hlast : ∀ m ∈ sc.past.getLast?, m.isFailedRemoval = true ∧ f.ident = m.store.faults) :
    (deliverInbound p start (.exception f)).Follows quiet held (fun _ => Settled) sc := by
  refine deliverInbound_follows hp hquiet.trail hwired (fun _ h => h) (fun _ _ => hquiet) ?_ ?_
  · intro stages t _ _ hp' refs hrefs m hm
    obtain ⟨hfailed, hnew⟩ := hlast m hm
    refine (hquiet.last m hm).leads_new hfailed rfl hnew (handsOn_stage hp' hrefs ?_)
    rintro caller c v rfl
    cases hfailed
  · intro stages held' _ _
    exact Meets.mono ((reachTail_within p _).staysQuiet hquiet (by decide)) fun _ _ h => h.settled

/-- A failure that is raised as an exception. -/
theorem raiseAt_rests {n : Nat} {h : Handler} {op : Outbound} {f : Fault} {refs : List Ref}
    (hp : .pipeline p ∈ held) (hnone : op.promise? = none) (hs : sc.store.HasStage s)
    (hpipeline : (sc.store.stage s).pipeline = p) (hwired : sc.store.Wired none)
    (htrail : Trail (sc.atDone n .library (.hook h (.event (.outbound op)) (.stage s)) (.error f)
      refs)) :
    (raiseAt p s f).Follows quiet held (fun _ => Rests)
      (sc.atDone n .library (.hook h (.event (.outbound op)) (.stage s)) (.error f) refs) := by
  simp only [raiseAt, bind_eq, Follows, meets_bind, meets_get]
  split
  · rename_i haccepts
    have hback : (Event.outbound op).comesBack sc.store s = true := by
      simpa [Event.comesBack, hnone] using haccepts
    refine Meets.mono (handleAt_settles hs htrail fun refs' hrefs m hm => ?_) fun _ _ h => h.rests
    have hp' : .pipeline (sc.store.stage s).pipeline ∈ held := hpipeline.symm ▸ hp
    have hon : m.HandsOn (sc.store.handling s f) ⟨sc.store, refs'⟩ := by
      refine handsOn_stage hp' hrefs fun caller c v heq => ?_
      cases heq.symm.trans (Scene.last_atDone hm)
    exact Mark.leads_of_fate (fate_of_done hback m hm) hon
  · rename_i haccepts
    refine deliverInbound_rests hp htrail hwired (fun m hm => ?_) fun m hm => ?_
    · obtain rfl := Scene.last_atDone hm
      intro caller c v hc
      cases hc
    obtain rfl := Scene.last_atDone hm
    refine ⟨rfl, rfl, rfl, ?_⟩
    have hback : (Event.outbound op).comesBack sc.store s = false := by
      simpa [Event.comesBack, hnone] using haccepts
    have hraises : (Event.outbound op).raises = true := by simp [Event.raises, hnone]
    simp only [Mark.fate, hback, hraises, hpipeline, Bool.false_eq_true, if_false, if_true]
    rfl

theorem offerOutbound_rests {op : Outbound} (hp : .pipeline p ∈ held) (hquiet : Quiet sc)
    (hs : sc.store.HasStage s) (hpipeline : (sc.store.stage s).pipeline = p) :
    (offerOutbound p s op).Follows quiet held (fun _ => Rests) sc := by
  simp only [offerOutbound, bind_eq, Follows, meets_bind, meets_get]
  refine hook_follows (by simp) hquiet.trail (fun _ _ m hm => ?_)
    fun r refs sc' hgrown _ hwired hdone => ?_
  · exact (hquiet.last m hm).leads (Mark.plain_call (.inr rfl))
  · split
    · exact (quiet_add hdone Mark.idle_done_ok).rests
    · rename_i f
      split
      · rename_i pr hpr
        have hidle : Quiet (sc'.atDone sc.past.length .library
            (.hook (sc.store.stage s).handler (.event (.outbound op)) (.stage s)) (.error f)
            refs) := by
          refine quiet_add hdone ⟨?_, rfl, rfl⟩
          simp [Mark.fate, Event.comesBack, Event.raises, hpr]
        rw [meets_bind]
        refine Meets.mono ((resolve_within pr _).staysQuiet hidle (by decide)) fun _ _ h => ?_
        exact h.rests
      · rename_i hnone
        obtain ⟨hs', hpipeline', -⟩ := hgrown.stage s hs
        exact raiseAt_rests hp hnone hs' (hpipeline'.trans hpipeline) hwired hdone

theorem deliverOutbound_rests {start : Option StageId} {op : Outbound} (hp : .pipeline p ∈ held)
    (hquiet : Quiet sc) (hwired : sc.store.Wired none) :
    (deliverOutbound p start op).Follows quiet held (fun _ => Rests) sc := by
  simp only [deliverOutbound, bind_eq, Follows, meets_bind, meets_get, meets_holding]
  split
  · rw [meets_bind, meets_note]
    refine Meets.mono ((reject_within _ _).staysQuiet (hquiet.change _) (by decide)) ?_
    exact fun _ _ h => h.rests
  · rename_i stages hstages
    split
    · rename_i t ht
      have hmem : t ∈ (sc.store.pipeline p).chain :=
        mem_of_stagesBefore hstages (List.mem_of_find?_eq_some ht)
      obtain ⟨hhas, hpipeline⟩ := hwired.chain p t hmem
      exact offerOutbound_rests (List.mem_append_right _ hp) hquiet hhas hpipeline
    · exact Meets.mono ((reachHead_within p _).staysQuiet hquiet (by decide)) fun _ _ h => h.rests

/-- What a pipeline is let know of by the last mark. -/
theorem deliver_rests {start : Option StageId} {e : Event} (hp : .pipeline p ∈ held)
    (htrail : Trail sc) (hwired : sc.store.Wired none) (hquiet : e.side = .outbound → Quiet sc)
    (hheld : ∀ m ∈ sc.past.getLast?, ∀ caller c v, m = .call caller c v → v.held ⊆ held)
    (hlast : ∀ i, e = .inbound i → ∀ m ∈ sc.past.getLast?, m.store = sc.store ∧
      m.demands? = none ∧ m.spoilt? = none ∧ m.fate = sc.store.fateAfter p start i) :
    (deliver p start e).Follows quiet held (fun _ => Rests) sc := by
  cases e with
  | inbound i => exact deliverInbound_rests hp htrail hwired hheld (hlast i rfl)
  | outbound op => exact deliverOutbound_rests hp (hquiet rfl) hwired

theorem enter_rests {caller : Caller} {e : Event} (hp : .pipeline p ∈ held)
    (htrail : Trail (sc.atCall caller (.enter p e) held)) (hwired : sc.store.Wired none) :
    (deliver p none e).Follows quiet held (fun _ => Rests)
      (sc.atCall caller (.enter p e) held) := by
  refine deliver_rests hp htrail hwired (fun hout => quiet_add htrail ?_) (fun m hm => ?_)
    fun i hi m hm => ?_
  · cases e with
    | inbound i => cases hout
    | outbound op => exact Mark.idle_call rfl rfl
  · obtain rfl := Scene.last_atCall hm
    rintro caller' c v heq
    cases heq
    exact List.Subset.refl _
  · obtain rfl := Scene.last_atCall hm
    subst hi
    exact ⟨rfl, rfl, rfl, rfl⟩

theorem outbound_quiet {caller : Caller} {ctx : Context} {op : Outbound}
    (htrail : Trail (sc.atCall caller (.propagate ctx (.outbound op)) held)) :
    Quiet (sc.atCall caller (.propagate ctx (.outbound op)) held) :=
  quiet_add htrail (Mark.idle_call rfl rfl)

theorem strand_rests (label : String) (e : Event) (h : Quiet sc) :
    (strand label e).Follows quiet held (fun _ => Rests) sc :=
  Meets.mono ((strand_within label e).staysQuiet h (by decide)) fun _ _ h => h.rests

theorem propagateFrom_stage_rests {caller : Caller} {e : Event}
    (htrail : Trail (sc.atCall caller (.propagate (.stage s) e) held))
    (hwired : sc.store.Wired none) :
    (propagateFrom (.stage s) e).Follows quiet held (fun _ => Rests)
      (sc.atCall caller (.propagate (.stage s) e) held) := by
  simp only [propagateFrom, bind_eq, Follows, meets_bind, meets_view]
  intro refs hrefs
  simp only [Scene.atCall_store, hrefs.pipelineAlive]
  split
  · rename_i halive
    refine (meets_holding ..).2 (deliver_rests (List.mem_append_left _ List.mem_cons_self) htrail
      hwired (fun hout => ?_) (fun m hm => ?_) fun i hi m hm => ?_)
    · cases e with
      | inbound i => cases hout
      | outbound op => exact outbound_quiet htrail
    · obtain rfl := Scene.last_atCall hm
      rintro caller' c v heq
      cases heq
      exact List.subset_append_right _ _
    · obtain rfl := Scene.last_atCall hm
      subst hi
      exact ⟨rfl, rfl, rfl, if_pos halive⟩
  · rename_i hdead
    refine strand_rests _ e ?_
    cases e with
    | inbound i => exact quiet_add htrail ⟨if_neg hdead, rfl, rfl⟩
    | outbound op => exact outbound_quiet htrail

theorem propagateFrom_delegate_rests {caller : Caller} {d : DelegateId} {e : Event}
    (htrail : Trail (sc.atCall caller (.propagate (.delegate d) e) held)) :
    (propagateFrom (.delegate d) e).Follows quiet held (fun _ => Rests)
      (sc.atCall caller (.propagate (.delegate d) e) held) := by
  simp only [propagateFrom, bind_eq, Follows, meets_bind, meets_view]
  intro refs hrefs
  simp only [Scene.atCall_store, hrefs.contextAlive]
  split
  · rename_i halive
    refine fun refs' hrefs' => ⟨htrail.called fun m hm => ?_, fun r sc' _ hpost => ?_⟩
    · obtain rfl := Scene.last_atCall hm
      cases he : e.exception? with
      | none =>
        have hnone (ctx : Context) : (Call.propagate ctx e).exception? = none := he
        exact (Mark.idle_call (hnone _) rfl).leads (Mark.plain_call (.inr (hnone _)))
      | some f =>
        cases Event.eq_of_exception he
        exact Mark.leads_of_fate (if_pos halive) (handsOn_inside nofun hrefs'.subset)
    · exact (quiet_add (hpost.2 _ _ _) (Mark.idle_done nofun)).rests
  · rename_i hdead
    have hquiet : Quiet (sc.atCall caller (.propagate (.delegate d) e) held) := by
      refine quiet_add htrail ⟨?_, rfl, rfl⟩
      cases he : e.exception? with
      | none => exact Call.fate_of_none he
      | some f =>
        cases Event.eq_of_exception he
        exact if_neg hdead
    rw [meets_bind, meets_note]
    exact strand_rests _ e (hquiet.change _)

/-- A context passes an event on, or drops it. -/
theorem propagateFrom_rests {caller : Caller} {ctx : Context} {e : Event}
    (htrail : Trail (sc.atCall caller (.propagate ctx e) held)) (hwired : sc.store.Wired none) :
    (propagateFrom ctx e).Follows quiet held (fun _ => Rests)
      (sc.atCall caller (.propagate ctx e) held) := by
  cases ctx with
  | stage s => exact propagateFrom_stage_rests htrail hwired
  | delegate d => exact propagateFrom_delegate_rests htrail
  | foreign f =>
    have hquiet : Quiet (sc.atCall caller (.propagate (.foreign f) e) held) :=
      quiet_add htrail ⟨rfl, rfl, rfl⟩
    simp only [propagateFrom, bind_eq, Follows, meets_bind, meets_view]
    intro refs _
    refine Meets.mono (Within.staysQuiet (F := ⟨[], []⟩) (.relay f e) hquiet (by decide)) ?_
    exact fun _ _ h => h.rests

/-! ### Hooks -/

/-- A component's hook comes back with the answer of the user. -/
theorem askHook_follows {caller : Caller} {c : ComponentId} {hk : Hook} {ctx : Context}
    (htrail : Trail (sc.atCall caller (.hook (.component c) hk ctx) held)) :
    (askHook c hk ctx).Follows quiet held
      (fun r sc' => ∀ n caller refs,
        Trail (sc'.atDone n caller (.hook (.component c) hk ctx) r refs))
      (sc.atCall caller (.hook (.component c) hk ctx) held) := by
  intro refs _
  have hasked : Quiet
      ((sc.atCall caller (.hook (.component c) hk ctx) held).atAsk (.hook c hk ctx) refs) := by
    refine quiet_add (htrail.add fun m hm => ?_) (Mark.idle_ask _)
    obtain rfl := Scene.last_atCall hm
    constructor
    case call => exact .inl rfl
    case held => exact fun _ hc => nomatch hc
    case tail => exact fun _ _ hfate => nomatch hfate
    case ask =>
      intro r hr
      cases hr
      exact ⟨_, rfl⟩
    case warn => exact fun _ _ hg => nomatch hg
    case outcome => trivial
  refine ⟨fun _ => hasked, fun a sc' _ hq hn => ?_⟩
  have hback : Quiet sc' := by
    by_cases hquiet : quiet (.hook c hk ctx)
    · rw [hq hquiet]
      exact hasked
    · exact (hn hquiet).1.2
  intro n caller refs'
  refine Trail.atDone ?_ List.getLast?_concat (Mark.idle_answer _ _) ⟨_, _, rfl⟩
  exact (hback.add (Mark.plain_answer _ _) (Mark.idle_answer _ _)).trail

variable (sc) in
/-- What a combinator hands on when it is told of an inbound event is due because of the call. -/
theorem leads_inbound {caller : Caller} {c : CombinatorId} {e : Inbound} {ctx : Context} (c' : Call)
    (h : (Event.inbound e).exception? = none → c'.exception? = none)
    (hc : ∀ h e s, c' ≠ .hook h (.event e) (.stage s))
    (hfate : ∀ f, e = .exception f →
      (Call.hook (.combinator c) (.event (.inbound e)) ctx).fate ⟨sc.store, held⟩ = .call c')
    {refs : List Ref} (hrefs : held ⊆ refs) {m : Mark}
    (hm : m ∈
      (sc.atCall caller (.hook (.combinator c) (.event (.inbound e)) ctx) held).past.getLast?) :
    m.Leads (.call .library c' ⟨sc.store, refs⟩) := by
  obtain rfl := Scene.last_atCall hm
  cases he : (Event.inbound e).exception? with
  | none =>
    have hcall : (Call.hook (.combinator c) (.event (.inbound e)) ctx).exception? = none := he
    exact (Mark.idle_call hcall rfl).leads (Mark.plain_call (.inr (h he)))
  | some f =>
    refine Mark.leads_of_fate (hfate f ?_) (handsOn_inside hc hrefs)
    exact Event.inbound.inj (Event.eq_of_exception he)

/-- A combinator hands an event to its half, or passes it on. -/
theorem inboundHook_follows {caller : Caller} {c : CombinatorId} {e : Inbound} {ctx : Context}
    (htrail : Trail (sc.atCall caller (.hook (.combinator c) (.event (.inbound e)) ctx) held)) :
    (inboundHook c ctx e).Follows quiet held
      (fun r sc' => ∀ n caller refs,
        Trail (sc'.atDone n caller (.hook (.combinator c) (.event (.inbound e)) ctx) r refs))
      (sc.atCall caller (.hook (.combinator c) (.event (.inbound e)) ctx) held) := by
  simp only [inboundHook, bind_eq, Follows, meets_bind, meets_get, Scene.atCall_store]
  split
  · rename_i hfree
    rw [meets_bind, meets_wrap]
    intro n caller' refs
    refine Trail.atDone ?_ List.getLast?_concat ⟨?_, rfl, rfl⟩ ?_
    · exact htrail
    · show (Call.hook (.combinator c) (.event (.inbound e)) ctx).fate _ = .idle
      cases he : (Event.inbound e).exception? with
      | none => exact Call.fate_of_none he
      | some f =>
        obtain rfl : e = .exception f := Event.inbound.inj (Event.eq_of_exception he)
        simp only [Call.fate, hfree]
    · exact fun _ => .inr (.inr ⟨_, _, rfl, hfree, _, rfl⟩)
  · rename_i x hx
    split
    · rename_i half hhalf
      rw [meets_holding]
      refine hook_follows (by simp) htrail (fun refs hrefs m hm => ?_)
        fun r refs sc' _ _ _ hdone => ?_
      · refine leads_inbound sc
          (.hook (.component half) (.event (.inbound e)) (.delegate x.inbound)) id (by simp) ?_
          (List.Subset.trans (List.subset_append_right _ _) hrefs) hm
        rintro f rfl
        simp only [Call.fate, hx, hhalf]
      · intro n caller' refs'
        refine hdone.atDone List.getLast?_concat (Mark.idle_done fun h => by cases h) fun _ => ?_
        exact .inl ⟨_, _, _, _, rfl⟩
    · rename_i hgone
      rw [meets_bind]
      refine fun refs hrefs => ⟨htrail.called fun m hm => ?_, fun r sc' _ hpost => ?_⟩
      · refine leads_inbound sc (.propagate ctx (.inbound e)) id (by simp) ?_ hrefs.subset hm
        rintro f rfl
        simp only [Call.fate, hx, hgone]
      · intro n caller' refs'
        refine (hpost.2 _ _ _).atDone List.getLast?_concat
          (Mark.idle_done fun h => by cases h) fun _ => ?_
        exact .inr (.inl ⟨rfl, _, _, rfl⟩)

theorem outboundHook_follows {caller : Caller} {c : CombinatorId} {op : Outbound} {ctx : Context}
    (htrail : Trail (sc.atCall caller (.hook (.combinator c) (.event (.outbound op)) ctx) held)) :
    (outboundHook c ctx op).Follows quiet held
      (fun r sc' => ∀ n caller refs,
        Trail (sc'.atDone n caller (.hook (.combinator c) (.event (.outbound op)) ctx) r refs))
      (sc.atCall caller (.hook (.combinator c) (.event (.outbound op)) ctx) held) := by
  have hquiet : Quiet (sc.atCall caller (.hook (.combinator c) (.event (.outbound op)) ctx) held) :=
    quiet_add htrail (Mark.idle_call rfl rfl)
  -- where there is a promise nothing is said of how the hook comes back
  have promised {r : Outcome} {sc' : Scene} {pr : PromiseId} (hpr : op.promise? = some pr)
      (h : Quiet sc') (n : Nat) (caller' : Caller) (refs : List Ref) :
      Trail (sc'.atDone n caller' (.hook (.combinator c) (.event (.outbound op)) ctx) r refs) := by
    refine h.trail.add fun m hm => (h.last m hm).andThen rfl fun hnone => ?_
    cases hpr.symm.trans hnone
  simp only [outboundHook, bind_eq, Follows, meets_bind, meets_get, Scene.atCall_store]
  split
  · rename_i hfree
    rw [meets_bind, meets_wrap]
    split
    · rename_i pr hpr
      rw [meets_bind]
      refine Meets.mono ((resolve_within pr _).staysQuiet (hquiet.change _) (by decide)) ?_
      exact fun _ _ h => promised hpr h
    · intro n caller' refs
      refine Trail.atDone ?_ List.getLast?_concat (Mark.idle_call rfl rfl) ?_
      · exact htrail
      · exact fun _ => .inr (.inr ⟨_, _, rfl, hfree, _, rfl⟩)
  · split
    · rw [meets_holding, meets_bind]
      refine hook_follows (by simp) htrail (fun _ _ m hm => ?_) fun r refs sc' _ _ _ hdone => ?_
      · exact (hquiet.last m hm).leads (Mark.plain_call (.inr rfl))
      · split
        · rename_i f pr hpr
          simp only [settle, bind_eq, meets_bind]
          refine Meets.mono ((resolve_within pr _).staysQuiet
            (quiet_add hdone (Mark.idle_done fun h => by cases h)) (by decide)) fun won sc' h => ?_
          split
          · exact promised hpr h
          · rw [meets_bind, meets_note]
            exact promised hpr (h.change _)
        · intro n caller' refs'
          refine hdone.atDone List.getLast?_concat (Mark.idle_done fun h => by cases h) fun _ => ?_
          exact .inl ⟨_, _, _, _, rfl⟩
    · rw [meets_bind]
      refine fun refs _ => ⟨htrail.called fun m hm => ?_, fun r sc' _ hpost => ?_⟩
      · exact (hquiet.last m hm).leads (Mark.plain_call (.inr rfl))
      · intro n caller' refs'
        refine (hpost.2 _ _ _).atDone List.getLast?_concat
          (Mark.idle_done fun h => by cases h) fun _ => ?_
        exact .inr (.inl ⟨rfl, _, _, rfl⟩)

/-! ### Removals -/

/-- The handler of a removed stage is told, and its failure goes to the stages that follow. -/
theorem runRemovalHook_settles (hp : .pipeline p ∈ held) (hS : Settled sc) :
    (runRemovalHook p s).Follows quiet held (fun _ => Settled) sc := by
  simp only [runRemovalHook, bind_eq, Follows, meets_bind, meets_get]
  refine hook_follows (by simp) hS.trail (fun _ _ m hm => ?_) fun r refs sc' _ _ hwired hdone => ?_
  · exact hS.rests.last m hm _ (Mark.plain_call (.inr rfl)) rfl
  · have hquiet := quiet_add hdone (Mark.idle_done fun h => by cases h)
    split
    · exact hquiet.settled
    · rw [meets_bind, meets_raise]
      have hgrown : sc'.store.Grown { sc'.store with faults := sc'.store.faults + 1 } :=
        .of_same rfl rfl fun _ _ h => h
      refine deliverInbound_settles hp (hquiet.change _)
        (hwired.grow hgrown (fun _ _ h => h) fun _ _ h => h) fun m hm => ?_
      obtain rfl := Scene.last_atDone hm
      exact ⟨rfl, rfl⟩

theorem remove_settles (name : String) (hp : .pipeline p ∈ held) (hquiet : Quiet sc) :
    (remove p name).Follows quiet held (fun _ => Settled) sc := by
  simp only [remove, bind_eq, Follows, meets_bind, meets_get]
  split
  · exact hquiet.settled
  · rename_i t ht
    simp only [meets_holding, meets_bind, meets_modify, meets_note]
    refine Meets.mono (runRemovalHook_settles (List.mem_append_right _ hp)
      (hquiet.settled.change rfl)) fun _ sc h => ?_
    have hleft : Settled
        { sc with store := sc.store.modifyChain p fun chain => chain.filter (· != t) } :=
      h.change rfl
    exact hleft.note rfl

theorem removeEach_settles (l : List StageId) (hp : .pipeline p ∈ held) (hS : Settled sc) :
    (removeEach p l).Follows quiet held (fun _ => Settled) sc := by
  refine meets_forEach l (fun t _ sc hS => ?_) hS
  simp only [bind_eq, meets_bind, meets_get]
  split
  · exact hS
  · rw [meets_bind, meets_modify]
    exact runRemovalHook_settles hp (hS.change rfl)

theorem clear_settles (hp : .pipeline p ∈ held) (hS : Settled sc) :
    (clear p).Follows quiet held (fun _ => Settled) sc := by
  simp only [clear, bind_eq, Follows, meets_bind, meets_get, meets_holding]
  refine Meets.mono (removeEach_settles _ (List.mem_append_right _ hp) hS) fun _ sc h => ?_
  rw [meets_modify, meets_note]
  have hleft : Settled { sc with
      store := sc.store.modifyChain p (·.filter fun s => !(sc.store.stage s).removed) } :=
    h.change rfl
  exact hleft.note rfl

theorem finish_settles (hp : .pipeline p ∈ held) (hquiet : Quiet sc) :
    (finish p).Follows quiet held (fun _ => Settled) sc := by
  simp only [finish, bind_eq, Follows, meets_bind]
  refine Meets.mono (newPromise_within.staysQuiet hquiet (by decide)) fun closing sc h => ?_
  refine Meets.mono ((submit_within p _).staysQuiet h (by decide)) fun _ sc h => ?_
  refine Meets.mono (clear_settles hp h.settled) fun _ sc h => ?_
  simp only [takeFault, bind_eq, meets_bind, meets_get]
  split
  · exact (meets_bind ..).2 ((meets_get ..).2 h)
  · rw [meets_bind, meets_modify]
    exact h.change rfl

/-- A half that was removed is told, and its failure is passed on at its delegate. -/
theorem concludeRemoval_quiet {c : CombinatorId} {side : Side} {half : ComponentId}
    {d : DelegateId} (hquiet : Quiet sc) :
    (concludeRemoval c side half d).Follows quiet held (fun _ => Quiet) sc := by
  simp only [concludeRemoval, bind_eq, Follows, meets_bind, meets_get, meets_holding, meets_modify,
    meets_note]
  refine hook_follows (by simp) hquiet.trail (fun _ _ m hm => ?_) fun r refs sc' _ _ _ hdone => ?_
  · exact (hquiet.last m hm).leads (Mark.plain_call (.inr rfl))
  · have hquiet' := quiet_add hdone (Mark.idle_done fun h => by cases h)
    split
    · exact hquiet'
    · rw [meets_bind, meets_raise]
      refine fun refs' _ => ⟨Trail.called ?_ fun m hm => ?_, fun r sc' _ hpost => ?_⟩
      · exact hquiet'.trail
      · have hidle := hquiet'.last m hm
        obtain rfl := Scene.last_atDone hm
        refine hidle.leads_new rfl rfl rfl ⟨fun caller c v hc => ?_, by simp⟩
        cases hc
      · exact quiet_add (hpost.2 _ _ _) (Mark.idle_done fun h => by cases h)

theorem removeHalf_quiet (c : CombinatorId) (side : Side) (hquiet : Quiet sc) :
    (removeHalf c side).Follows quiet held (fun _ => Quiet) sc := by
  simp only [removeHalf, bind_eq, Follows, meets_bind, meets_get]
  split
  · exact hquiet
  · split
    · exact hquiet
    · exact hquiet
    · rw [meets_bind, meets_modify, meets_bind]
      exact Meets.mono (concludeRemoval_quiet (hquiet.change _)) fun _ _ h => h

theorem cascade_quiet (c : CombinatorId) (ctx : Context) (hquiet : Quiet sc) :
    (cascade c ctx).Follows quiet held (fun _ => Quiet) sc := by
  have each (side : Side) (d : DelegateId) {held : List Ref} {sc : Scene} (hquiet : Quiet sc)
      (l : List ComponentId) :
      (forEach (fun half => concludeRemoval c side half d) l).Follows quiet held
        (fun _ => Quiet) sc :=
    meets_forEach l (fun _ _ _ h => concludeRemoval_quiet h) hquiet
  simp only [cascade, bind_eq, Follows, meets_bind, meets_get]
  split
  · exact hquiet
  · split
    · simp only [meets_bind, meets_get, meets_note]
      exact hquiet.change _
    · simp only [meets_bind, meets_modify, meets_note, meets_holding]
      refine Meets.mono (each _ _ (hquiet.change _) _) fun _ sc h => ?_
      exact Meets.mono (each _ _ h _) fun _ _ h => h

end Proc

/-- **Every call does what the marks call for.** -/
theorem aftermath_kept {quiet : Request → Prop} : background.KeptOver quiet aftermath := by
  intro caller c refs sc hholds hbackground hcalled
  have htrail := hcalled.trail
  -- procedures that have nothing to do with exceptions
  have quietly (hF : c.footprint ⊆ .except [] [.stageEvent, .halfEvent, .propagate])
      (hidle : ∀ v, (Mark.call caller c v).Idle)
      (hechoes : ∀ n caller r v, ∀ m : Mark, m.Echoes (.done n caller c r v)) :
      c.procedure.Follows quiet refs (aftermath.post c refs (sc.atCall caller c refs))
        (sc.atCall caller c refs) := by
    have hquiet := quiet_add htrail (hidle _)
    refine Proc.Meets.mono ((Call.procedure_within c _).staysQuiet hquiet hF) ?_
    exact fun r sc' h n caller refs => h.trail.add fun m hm =>
      (h.last m hm).leads (Mark.plain_done (hechoes _ _ _ _))
  have ended {r : c.Result} {sc' : Scene} (h : Rests sc')
      (hechoes : ∀ n caller v, ∀ m : Mark, m.Echoes (.done n caller c r v)) :
      aftermath.post c refs (sc.atCall caller c refs) r sc' :=
    fun n caller refs => h.trail.add fun m hm => h.last m hm _ (Mark.plain_done (hechoes _ _ _)) rfl
  have hwired : (∀ d s, c ≠ .hook d .added (.stage s)) →
      (sc.atCall caller c refs).store.Wired none := wired_of_pre hbackground.1
  cases c with
  | hook h hk ctx =>
    cases h with
    | component c => exact Proc.askHook_follows htrail
    | combinator c =>
      rcases hk with _ | _ | ⟨e | op⟩
      · refine quietly ?_ (fun _ => Mark.idle_call rfl rfl) fun _ _ _ _ _ => trivial
        dsimp only [Call.footprint]
        decide
      · have hquiet := quiet_add htrail (Mark.idle_call rfl rfl)
        refine Proc.Meets.mono (Proc.cascade_quiet c ctx hquiet) fun r sc' h => ?_
        exact ended h.rests fun _ _ _ _ => trivial
      · exact Proc.inboundHook_follows htrail
      · exact Proc.outboundHook_follows htrail
  | propagate ctx e =>
    refine Proc.Meets.mono (Proc.propagateFrom_rests htrail (hwired nofun)) fun r sc' h => ?_
    exact ended h fun _ _ _ _ => trivial
  | enter p e =>
    have hp : .pipeline p ∈ refs := hholds List.mem_cons_self
    refine Proc.Meets.mono (Proc.enter_rests hp htrail (hwired nofun)) fun r sc' h => ?_
    exact ended h fun _ _ _ _ => trivial
  | remove p name =>
    have hp : .pipeline p ∈ refs := hholds List.mem_cons_self
    have hquiet := quiet_add htrail (Mark.idle_call rfl rfl)
    refine Proc.Meets.mono (Proc.remove_settles name hp hquiet) fun r sc' h => ?_
    exact ended h.rests fun _ _ _ _ => trivial
  | finish p =>
    have hp : .pipeline p ∈ refs := hholds List.mem_cons_self
    have hquiet := quiet_add htrail (Mark.idle_call rfl rfl)
    refine Proc.Meets.mono (Proc.finish_settles hp hquiet) fun r sc' h => ?_
    exact ended h.rests fun _ _ _ _ => trivial
  | removeHalf c side =>
    have hquiet := quiet_add htrail (Mark.idle_call rfl rfl)
    refine Proc.Meets.mono (Proc.removeHalf_quiet c side hquiet) fun r sc' h => ?_
    exact ended h.rests fun _ _ _ _ => trivial
  | _ =>
    refine quietly ?_ (fun _ => Mark.idle_call rfl rfl) fun _ _ _ _ _ => trivial
    dsimp only [Call.footprint]
    decide

/-! ## In every run -/

theorem background_fair : background.Fair := wiring_fair.and lasting_fair

theorem background_kept {quiet : Request → Prop} : background.Kept quiet :=
  wiring_kept.and lasting_kept.over

section
variable {σ α : Type} (answers : Answers σ) (fuel : Nat) (client : Client σ α) (memory : σ)

/-- **What each mark calls for is done at the next one.** -/
theorem leads_of_trace : (client.trace answers fuel memory).IsChain Mark.Leads := by
  have hkept : (background.and aftermath).Kept fun _ => False := background_kept.and aftermath_kept
  have hstart : Quiet ⟨{}, []⟩ := ⟨List.isChain_nil, fun _ hm => nomatch hm⟩
  have htrail : Trail (client.report answers fuel memory).scene :=
    Contract.report_scene (background_fair.and aftermath_fair) (fun _ h => h.elim) hkept
      ⟨⟨Store.wired_empty, List.isChain_singleton _⟩, hstart⟩ (fun _ h => h.2.trail)
      (fun _ _ _ h => h.2.trail) fuel client memory
  exact htrail

/-- A component whose hook is called is asked to run it at the next mark. -/
theorem asked_of_trace {past rest : List Mark} {caller : Caller} {h : ComponentId} {hk : Hook}
    {ctx : Context} {v : View} (htrace : client.trace answers fuel memory =
      past ++ .call caller (.hook (.component h) hk ctx) v :: rest) :
    ∀ m ∈ rest.head?, ∃ v', m = .ask (.hook h hk ctx) v' := by
  intro m hm
  have hleads := leads_of_trace answers fuel client memory
  rw [htrace] at hleads
  have hnext := (List.isChain_cons.1 (List.isChain_append.1 hleads).2.1).1 m hm
  exact hnext.ask _ rfl

/-- A run does not end while anything is left to do, unless it is cut short at a call. -/
theorem last_of_trace : ∀ m ∈ (client.trace answers fuel memory).getLast?, m.MayEnd := by
  have hkept : (background.and aftermath).Kept fun _ => False := background_kept.and aftermath_kept
  have hstart : Quiet ⟨{}, []⟩ := ⟨List.isChain_nil, fun _ hm => nomatch hm⟩
  have hends : (client.report answers fuel memory).scene.MayEnd := by
    refine Contract.report_scene (background_fair.and aftermath_fair) (fun _ h => h.elim) hkept
      ⟨⟨Store.wired_empty, List.isChain_singleton _⟩, hstart⟩
      (fun _ h m hm => .inl (h.2.last m hm)) (fun c _ _ h m hm => ?_) fuel client memory
    obtain ⟨caller, v, hlast⟩ := h.2.last
    exact .inr ⟨caller, c, v, Option.some.inj (hm.symm.trans hlast)⟩
  exact hends

/-- What was seen in a run lasts. -/
theorem lasts_of_trace :
    ((client.trace answers fuel memory).map Mark.store).IsChain Store.Lasts := by
  have hkept : lasting.Kept fun _ => False := lasting_kept
  have hlasting : Lasting (client.report answers fuel memory).scene :=
    Contract.report_scene lasting_fair (fun _ h => h.elim) hkept
      (List.isChain_singleton _) (fun _ h => h) (fun _ _ _ h => h) fuel client memory
  exact (List.isChain_append.1 hlasting).1

/-- What was seen at a mark is there at all later ones. -/
theorem lasts_since {past rest : List Mark} {m₀ : Mark}
    (htrace : client.trace answers fuel memory = past ++ m₀ :: rest) :
    ∀ m ∈ rest, m₀.store.Lasts m.store := by
  have hlasts := lasts_of_trace answers fuel client memory
  have : IsTrans Store Store.Lasts := ⟨fun _ _ _ => Store.Lasts.trans⟩
  rw [htrace, List.map_append, List.map_cons, List.isChain_iff_pairwise] at hlasts
  obtain ⟨hlater, -⟩ := List.pairwise_cons.1 (List.pairwise_append.1 hlasts).2.1
  exact fun m hm => hlater _ (List.mem_map_of_mem hm)

end

end HandlerChain
