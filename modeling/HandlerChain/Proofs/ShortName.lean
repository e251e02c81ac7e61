import HandlerChain.Combinator.Lifecycle

/-!
# Short names of types

What a label keeps of a type name. Every text falls into three parts: a path up to its last
separator, the segment behind it, and arguments from the first angle bracket on. The bytes of a
text fall into the bytes of the same parts, because the byte of a colon or of a bracket stands for
nothing else; so a separator found in the bytes ends between two characters. Main statement:
`Label.short_eq_last_segment`.
-/

namespace HandlerChain.Label

/-! ## Parts of a text -/

section Search

variable {α : Type} {sep bracket a : α} {l m text path segment arguments : List α}

/-- The three parts of a text of characters or of bytes in which `sep` twice in a row separates.
The path is empty or ends in the last separator before the first bracket, also among separators
that overlap; the segment holds none; the arguments begin at the bracket. -/
structure Parts (sep bracket : α) (text path segment arguments : List α) : Prop where
  text_eq : text = path ++ (segment ++ arguments)
  path_ends : path = [] ∨ [sep, sep] <:+ path
  path_outer : bracket ∉ path
  segment_outer : bracket ∉ segment
  segment_whole : ¬ [sep, sep] <:+: segment
  segment_starts : path = [] ∨ segment.head? ≠ some sep
  arguments_start : arguments = [] ∨ arguments.head? = some bracket

theorem pair_infix_cons :
    [sep, sep] <:+: a :: l ↔ (a = sep ∧ l.head? = some sep) ∨ [sep, sep] <:+: l := by
  have hl : [sep] <+: l ↔ l.head? = some sep := by
    cases l <;> simp [List.cons_prefix_cons, eq_comm]
  rw [List.infix_cons_iff, List.cons_prefix_cons, hl, eq_comm (a := sep)]

theorem pair_infix_append (h : sep ∉ l) : [sep, sep] <:+: l ++ m ↔ [sep, sep] <:+: m := by
  induction l with
  | nil => rfl
  | cons a l ih =>
    rw [List.mem_cons, not_or] at h
    rw [List.cons_append, pair_infix_cons, ih h.2]
    exact or_iff_right fun ha => h.1 ha.1.symm

theorem Parts.cons_path (h : Parts sep bracket text path segment arguments) (hpath : path ≠ [])
    (ha : a ≠ bracket) : Parts sep bracket (a :: text) (a :: path) segment arguments where
  text_eq := by rw [h.text_eq]; rfl
  path_ends := .inr ((h.path_ends.resolve_left hpath).trans (List.suffix_cons a path))
  path_outer := List.not_mem_cons_of_ne_of_not_mem (Ne.symm ha) h.path_outer
  segment_outer := h.segment_outer
  segment_whole := h.segment_whole
  segment_starts := .inr (h.segment_starts.resolve_left hpath)
  arguments_start := h.arguments_start

theorem Parts.cons_segment (h : Parts sep bracket text [] segment arguments) (ha : a ≠ bracket)
    (hpair : ¬ (a = sep ∧ segment.head? = some sep)) :
    Parts sep bracket (a :: text) [] (a :: segment) arguments where
  text_eq := by rw [h.text_eq]; rfl
  path_ends := .inl rfl
  path_outer := h.path_outer
  segment_outer := List.not_mem_cons_of_ne_of_not_mem (Ne.symm ha) h.segment_outer
  segment_whole := by
    rw [pair_infix_cons, not_or]
    exact ⟨hpair, h.segment_whole⟩
  segment_starts := .inl rfl
  arguments_start := h.arguments_start

theorem Parts.cons_separator (h : Parts sep bracket text [] (sep :: segment) arguments)
    (hsep : sep ≠ bracket) : Parts sep bracket (sep :: text) [sep, sep] segment arguments where
  text_eq := by rw [h.text_eq]; rfl
  path_ends := .inr (List.suffix_refl _)
  path_outer := by simp [Ne.symm hsep]
  segment_outer := fun hm => h.segment_outer (List.mem_cons_of_mem _ hm)
  segment_whole := fun hpair => h.segment_whole (pair_infix_cons.2 (.inr hpair))
  segment_starts := .inr fun hhead => h.segment_whole (pair_infix_cons.2 (.inl ⟨rfl, hhead⟩))
  arguments_start := h.arguments_start

/-- A text is taken apart from its end on. What is put before it makes the path longer, or the
segment while there is no path, unless it begins the arguments or completes a separator. -/
theorem exists_parts [DecidableEq α] (sep bracket : α) (text : List α) :
    ∃ path segment arguments, Parts sep bracket text path segment arguments := by
  induction text with
  | nil => exact ⟨[], [], [], by constructor <;> simp⟩
  | cons c text ih =>
    by_cases hc : c = bracket
    · exact ⟨[], [], c :: text, by constructor <;> simp [hc]⟩
    obtain ⟨path, segment, arguments, h⟩ := ih
    by_cases hpath : path = []
    · subst hpath
      by_cases hpair : c = sep ∧ segment.head? = some sep
      · obtain ⟨rfl, hhead⟩ := hpair
        obtain ⟨segment, rfl⟩ := List.head?_eq_some_iff.1 hhead
        exact ⟨[c, c], segment, arguments, h.cons_separator hc⟩
      · exact ⟨[], c :: segment, arguments, h.cons_segment hc hpair⟩
    · exact ⟨c :: path, segment, arguments, h.cons_path hpath hc⟩

/-- The separator that ends the path is the last one, also among those that overlap. -/
theorem Parts.exists_before (h : Parts sep bracket text path segment arguments)
    (hpath : path ≠ []) :
    ∃ before, path = before ++ [sep, sep] ∧ ¬ [sep, sep] <:+: sep :: segment := by
  obtain ⟨before, hbefore⟩ := h.path_ends.resolve_left hpath
  refine ⟨before, hbefore.symm, ?_⟩
  rw [pair_infix_cons, not_or]
  exact ⟨fun hs => h.segment_starts.resolve_left hpath hs.2, h.segment_whole⟩

variable [DecidableEq α]

/-- Where the last two separators in a row begin. -/
def lastPair? (sep : α) : List α → Option Nat
  | [] => none
  | a :: rest =>
    match lastPair? sep rest with
    | some i => some (i + 1)
    | none => if a = sep ∧ rest.head? = some sep then some 0 else none

/-- How much of a text is path: what stands before the first bracket is searched, and all up to
the end of the last two separators counts. -/
def pathLength (sep bracket : α) (text : List α) : Nat :=
  match lastPair? sep (text.takeWhile (· ≠ bracket)) with
  | some i => i + 2
  | none => 0

theorem lastPair?_eq_none (h : ¬ [sep, sep] <:+: l) : lastPair? sep l = none := by
  induction l with
  | nil => rfl
  | cons a l ih =>
    rw [pair_infix_cons, not_or] at h
    rw [lastPair?, ih h.2]
    exact if_neg h.1

theorem lastPair?_append (before : List α) (h : ¬ [sep, sep] <:+: sep :: l) :
    lastPair? sep (before ++ sep :: sep :: l) = some before.length := by
  induction before with
  | nil =>
    rw [List.nil_append, lastPair?, lastPair?_eq_none h]
    exact if_pos ⟨rfl, rfl⟩
  | cons a before ih =>
    rw [List.cons_append, lastPair?, ih]
    rfl

theorem Parts.takeWhile_eq (h : Parts sep bracket text path segment arguments) :
    text.takeWhile (· ≠ bracket) = path ++ segment := by
  have houter : ∀ c ∈ path ++ segment, decide (c ≠ bracket) = true := by
    intro c hc
    refine decide_eq_true ?_
    rintro rfl
    exact (List.mem_append.1 hc).elim h.path_outer h.segment_outer
  have hstop : arguments.takeWhile (· ≠ bracket) = [] := by
    rcases h.arguments_start with rfl | hstart
    · rfl
    · obtain ⟨tail, rfl⟩ := List.head?_eq_some_iff.1 hstart
      simp
  rw [h.text_eq, ← List.append_assoc, List.takeWhile_append_of_pos houter, hstop, List.append_nil]

theorem Parts.pathLength_eq (h : Parts sep bracket text path segment arguments) :
    pathLength sep bracket text = path.length := by
  rw [pathLength, h.takeWhile_eq]
  by_cases hpath : path = []
  · subst hpath
    rw [List.nil_append, lastPair?_eq_none h.segment_whole]
    rfl
  · obtain ⟨before, hbefore, hlast⟩ := h.exists_before hpath
    have hsplit : path ++ segment = before ++ sep :: sep :: segment := by
      rw [hbefore, List.append_assoc]
      rfl
    rw [hsplit, lastPair?_append before hlast, hbefore, List.length_append]
    rfl

end Search

/-! ## Characters -/

variable {best l : List Char} {c d : Char} {typeName : String}
  {text path segment arguments : List Char}

theorem afterPath_segment (hbracket : '<' ∉ segment) (hwhole : ¬ [':', ':'] <:+: segment)
    (hstart : arguments = [] ∨ arguments.head? = some '<') :
    afterPath best (segment ++ arguments) = best := by
  induction segment with
  | nil =>
    rcases hstart with rfl | hstart
    · rfl
    · obtain ⟨rest, rfl⟩ := List.head?_eq_some_iff.1 hstart
      rfl
  | cons c segment ih =>
    rw [List.mem_cons, not_or] at hbracket
    rw [pair_infix_cons, not_or] at hwhole
    -- A colon at the very end of the segment is not completed by what the arguments begin with.
    have hpair : ¬ (c = ':' ∧ (segment ++ arguments).head? = some ':') := by
      rintro ⟨hc, hhead⟩
      cases segment with
      | nil =>
        rcases hstart with rfl | hstart
        · cases hhead
        · cases hstart.symm.trans hhead
      | cons d segment => exact hwhole.1 ⟨hc, hhead⟩
    rw [List.cons_append, afterPath_cons (Ne.symm hbracket.1), if_neg hpair]
    exact ih hbracket.2 hwhole.2

theorem Parts.short_eq (h : Parts ':' '<' typeName.toList path segment arguments) :
    short typeName = String.ofList (segment ++ arguments) := by
  refine congrArg String.ofList ?_
  rw [h.text_eq]
  by_cases hpath : path = []
  · subst hpath
    rw [List.nil_append]
    exact afterPath_segment h.segment_outer h.segment_whole h.arguments_start
  · obtain ⟨before, hbefore, hlast⟩ := h.exists_before hpath
    have hbracket : '<' ∉ before := fun hb =>
      h.path_outer (hbefore ▸ List.mem_append_left _ hb)
    have hcolon : '<' ∉ ':' :: segment := by
      rw [List.mem_cons, not_or]
      exact ⟨by decide, h.segment_outer⟩
    have hsplit : path ++ (segment ++ arguments) =
        before ++ ':' :: ':' :: (segment ++ arguments) := by
      rw [hbefore, List.append_assoc]
      rfl
    obtain ⟨best, hbest⟩ := afterPath_append hbracket (path ++ (segment ++ arguments))
      (':' :: ':' :: (segment ++ arguments))
    calc afterPath (path ++ (segment ++ arguments)) (path ++ (segment ++ arguments))
        = afterPath best (':' :: ':' :: (segment ++ arguments)) := by rw [← hbest, ← hsplit]
      _ = afterPath (segment ++ arguments) (':' :: segment ++ arguments) := rfl
      _ = segment ++ arguments := afterPath_segment hcolon hlast h.arguments_start

/-! ## Bytes -/

theorem utf8EncodeChar_of_ascii (hc : c.val ≤ 127) : String.utf8EncodeChar c = [c.toUInt8] :=
  String.utf8EncodeChar_eq_singleton (Char.utf8Size_eq_one_iff.2 hc)

/-- In a character of more than one byte all bytes are above those of single-byte characters. -/
theorem toNat_of_mem_utf8EncodeChar {b : UInt8} (hb : b.toNat ≤ 127)
    (h : b ∈ String.utf8EncodeChar c) : b.toNat = c.val.toNat := by
  rw [String.utf8EncodeChar.eq_1] at h
  repeat' split at h
  all_goals
    simp only [List.mem_cons, List.not_mem_nil, or_false, ← UInt8.toNat_inj,
      UInt8.toNat_ofNat'] at h
    omega

theorem mem_utf8EncodeChar (hc : c.val ≤ 127) :
    c.toUInt8 ∈ String.utf8EncodeChar d ↔ d = c := by
  have hnat : c.val.toNat ≤ 127 := UInt32.le_iff_toNat_le.1 hc
  have hbyte : c.toUInt8.toNat = c.val.toNat := by
    rw [Char.toUInt8, UInt32.toNat_toUInt8]
    omega
  refine ⟨fun h => ?_, fun h => ?_⟩
  · have hval := toNat_of_mem_utf8EncodeChar (hbyte ▸ hnat) h
    exact Char.ext (UInt32.toNat_inj.1 (hval.symm.trans hbyte))
  · rw [h, utf8EncodeChar_of_ascii hc]
    exact List.mem_singleton_self _

def bytes (l : List Char) : List UInt8 := l.flatMap String.utf8EncodeChar

theorem bytes_append (l m : List Char) : bytes (l ++ m) = bytes l ++ bytes m :=
  List.flatMap_append

theorem bytes_cons (c : Char) (l : List Char) :
    bytes (c :: l) = String.utf8EncodeChar c ++ bytes l :=
  List.flatMap_cons

theorem toByteArray_eq_bytes (s : String) : s.toByteArray.data.toList = bytes s.toList := by
  rw [← String.utf8Encode_toList, List.utf8Encode, List.toList_data_toByteArray]
  rfl

theorem mem_bytes (hc : c.val ≤ 127) : c.toUInt8 ∈ bytes l ↔ c ∈ l := by
  rw [bytes, List.mem_flatMap]
  refine ⟨fun ⟨d, hd, h⟩ => (mem_utf8EncodeChar hc).1 h ▸ hd, fun h => ⟨c, h, ?_⟩⟩
  exact (mem_utf8EncodeChar hc).2 rfl

theorem head?_bytes (hc : c.val ≤ 127) :
    (bytes l).head? = some c.toUInt8 ↔ l.head? = some c := by
  cases l with
  | nil => exact ⟨nofun, nofun⟩
  | cons d l =>
    obtain ⟨b, rest, hd⟩ := List.exists_cons_of_ne_nil (String.utf8EncodeChar_ne_nil (c := d))
    rw [bytes_cons, hd, List.cons_append, List.head?_cons, List.head?_cons, Option.some_inj,
      Option.some_inj]
    refine ⟨fun h => (mem_utf8EncodeChar hc).1 ?_, fun h => ?_⟩
    · rw [hd, h]
      exact List.mem_cons_self
    · rw [h, utf8EncodeChar_of_ascii hc] at hd
      exact (List.cons.inj hd).1.symm

theorem pair_infix_bytes (hc : c.val ≤ 127) :
    [c.toUInt8, c.toUInt8] <:+: bytes l ↔ [c, c] <:+: l := by
  induction l with
  | nil => simp [bytes]
  | cons d l ih =>
    rw [bytes_cons, pair_infix_cons]
    by_cases hd : d = c
    · subst hd
      rw [utf8EncodeChar_of_ascii hc, List.singleton_append, pair_infix_cons, head?_bytes hc, ih]
      simp only [true_and]
    · rw [pair_infix_append (mt (mem_utf8EncodeChar hc).1 hd), ih]
      exact (or_iff_right fun h => hd h.1).symm

theorem Parts.toBytes {sep bracket : Char} (hsep : sep.val ≤ 127) (hbracket : bracket.val ≤ 127)
    (h : Parts sep bracket text path segment arguments) :
    Parts sep.toUInt8 bracket.toUInt8 (bytes text) (bytes path) (bytes segment)
      (bytes arguments) where
  text_eq := by rw [h.text_eq, bytes_append, bytes_append]
  path_ends := by
    refine h.path_ends.imp (congrArg bytes) fun ⟨before, hpath⟩ => ⟨bytes before, ?_⟩
    have hpair : bytes [sep, sep] = [sep.toUInt8, sep.toUInt8] := by
      rw [bytes_cons, bytes_cons, utf8EncodeChar_of_ascii hsep]
      rfl
    rw [← hpath, bytes_append, hpair]
  path_outer := mt (mem_bytes hbracket).1 h.path_outer
  segment_outer := mt (mem_bytes hbracket).1 h.segment_outer
  segment_whole := mt (pair_infix_bytes hsep).1 h.segment_whole
  segment_starts := h.segment_starts.imp (congrArg bytes) (mt (head?_bytes hsep).1)
  arguments_start := h.arguments_start.imp (congrArg bytes) (head?_bytes hbracket).2

/-- How many bytes of a type name are cut off before it is used in a label. -/
def pathSize (typeName : String) : Nat :=
  pathLength ':'.toUInt8 '<'.toUInt8 typeName.toByteArray.data.toList

theorem Parts.exists_cut (h : Parts ':' '<' typeName.toList path segment arguments) :
    ∃ cut : typeName.Pos, cut.offset.byteIdx = pathSize typeName ∧
      cut.Splits (String.ofList path) (short typeName) := by
  have hname : typeName = String.ofList path ++ short typeName := by
    rw [h.short_eq, ← String.ofList_append, ← h.text_eq, String.ofList_toList]
  have hpath : (String.ofList path).utf8ByteSize = (bytes path).length := by
    rw [← String.size_toByteArray, ByteArray.size, ← Array.length_toList, toByteArray_eq_bytes,
      String.toList_ofList]
  have hsize : pathSize typeName = (bytes path).length := by
    rw [pathSize, toByteArray_eq_bytes]
    exact (h.toBytes (by decide) (by decide)).pathLength_eq
  have hvalid : String.Pos.Raw.IsValid typeName (String.ofList path).rawEndPos :=
    String.Pos.Raw.isValid_iff_exists_append.2 ⟨_, _, hname, rfl⟩
  exact ⟨typeName.pos _ hvalid, hpath.trans hsize.symm, hname, rfl⟩

/-! ## Names with arguments -/

/-- A segment of a path holds nothing of a separator and opens no arguments. -/
structure Segment where
  text : String
  undivided : ':' ∉ text.toList
  closed : '<' ∉ text.toList

mutual

/-- The name of a type: segments that lead to it, its own one, and perhaps arguments. -/
inductive TypeName where
  | plain (path : List Segment) (own : Segment)
  | generic (path : List Segment) (own : Segment) (arguments : Arguments)

/-- What stands between the angle brackets: names of types and any other text, in any order. -/
inductive Arguments where
  | done
  | text (shown : String) (rest : Arguments)
  | type (name : TypeName) (rest : Arguments)

end

def joined (path : List Segment) (own : Segment) : String :=
  "::".intercalate ((path ++ [own]).map Segment.text)

mutual

def TypeName.text : TypeName → String
  | .plain path own => joined path own
  | .generic path own arguments => joined path own ++ ("<" ++ arguments.shown ++ ">")

def Arguments.shown : Arguments → String
  | .done => ""
  | .text shown rest => shown ++ rest.shown
  | .type name rest => name.text ++ rest.shown

end

/-- A name without the segments that lead to it. -/
def TypeName.last : TypeName → String
  | .plain _ own => own.text
  | .generic _ own arguments => own.text ++ ("<" ++ arguments.shown ++ ">")

/-- The segments of a path, each with a separator behind it. -/
def leading : List Segment → String
  | [] => ""
  | segment :: path => segment.text ++ "::" ++ leading path

theorem joined_eq (path : List Segment) (own : Segment) :
    joined path own = leading path ++ own.text := by
  induction path with
  | nil => simp [joined, leading]
  | cons segment path ih =>
    have hne : (path ++ [own]).map Segment.text ≠ [] := by simp
    rw [leading, String.append_assoc, ← ih]
    exact String.intercalate_cons_of_ne_nil hne

theorem leading_ends (path : List Segment) :
    (leading path).toList = [] ∨ [':', ':'] <:+ (leading path).toList := by
  induction path with
  | nil => exact .inl rfl
  | cons segment path ih =>
    rw [leading, String.toList_append, String.toList_append]
    rcases ih with h | h
    · rw [h, List.append_nil]
      exact .inr (List.suffix_append _ _)
    · exact .inr (h.trans (List.suffix_append _ _))

theorem leading_closed (path : List Segment) : '<' ∉ (leading path).toList := by
  induction path with
  | nil => exact List.not_mem_nil
  | cons segment path ih =>
    rw [leading, String.toList_append, String.toList_append, List.mem_append, List.mem_append,
      not_or, not_or]
    exact ⟨⟨segment.closed, by decide⟩, ih⟩

theorem parts_joined (path : List Segment) (own : Segment)
    (h : arguments = [] ∨ arguments.head? = some '<') :
    Parts ':' '<' ((joined path own).toList ++ arguments) (leading path).toList own.text.toList
      arguments where
  text_eq := by rw [joined_eq, String.toList_append, List.append_assoc]
  path_ends := leading_ends path
  path_outer := leading_closed path
  segment_outer := own.closed
  segment_whole := fun hpair => own.undivided (hpair.subset List.mem_cons_self)
  segment_starts := .inr fun hhead => own.undivided (List.mem_of_head? hhead)
  arguments_start := h

theorem TypeName.short_text (t : TypeName) : short t.text = t.last := by
  cases t with
  | plain path own =>
    have h := parts_joined path own (.inl rfl)
    rw [List.append_nil] at h
    rw [TypeName.text, h.short_eq, List.append_nil, String.ofList_toList, TypeName.last]
  | generic path own arguments =>
    have hstart : ("<" ++ arguments.shown ++ ">").toList.head? = some '<' := by simp
    have h := parts_joined path own (.inr hstart)
    rw [← String.toList_append] at h
    rw [TypeName.text, h.short_eq, ← String.toList_append, String.ofList_toList, TypeName.last]

/-- **What a label keeps of a type name.** A combinator that was given no name is labelled by two
short names. Every type name has the three parts, and its short name is the last segment with the
arguments as they are: what is cut off is the path, and the cut, which a search in the bytes finds,
stands between two characters. Of a name made of segments, and of arguments nested to any depth,
the own segment and the arguments are left. -/
theorem short_eq_last_segment :
    (∀ (sharable : Bool) (inbound outbound : String),
      CombinatorSettings.label { sharable } inbound outbound =
        short inbound ++ "+" ++ short outbound) ∧
      (∀ typeName : String,
        (∃ path segment arguments, Parts ':' '<' typeName.toList path segment arguments) ∧
          ∀ path segment arguments, Parts ':' '<' typeName.toList path segment arguments →
            short typeName = String.ofList (segment ++ arguments) ∧
              ∃ cut : typeName.Pos, cut.offset.byteIdx = pathSize typeName ∧
                cut.Splits (String.ofList path) (short typeName)) ∧
      ∀ t : TypeName, short t.text = t.last := by
  refine ⟨fun sharable inbound outbound => rfl, fun typeName => ?_, TypeName.short_text⟩
  exact ⟨exists_parts .., fun path segment arguments h => ⟨h.short_eq, h.exists_cut⟩⟩

/-- Two levels of arguments with paths of their own, behind a path with a character of two
bytes. -/
theorem nested_arguments_kept :
    let line : TypeName :=
      .plain [.mk "wire" (by decide) (by decide)] (.mk "Line" (by decide) (by decide))
    let pair : TypeName :=
      .generic [.mk "codec" (by decide) (by decide)] (.mk "Pair" (by decide) (by decide))
        (.type line (.text ", u8" .done))
    let gen : TypeName :=
      .generic [.mk "straße" (by decide) (by decide), .mk "codec" (by decide) (by decide)]
        (.mk "Gen" (by decide) (by decide)) (.type pair .done)
    short gen.text = "Gen<codec::Pair<wire::Line, u8>>" ∧ pathSize gen.text = 16 ∧
      ∃ cut : gen.text.Pos, cut.offset.byteIdx = 16 ∧
        cut.Splits "straße::codec::" (short gen.text) := by
  intro line pair gen
  have htext : gen.text = "straße::codec::Gen<codec::Pair<wire::Line, u8>>" := by decide +kernel
  have hparts : Parts ':' '<' gen.text.toList "straße::codec::".toList "Gen".toList
      "<codec::Pair<wire::Line, u8>>".toList := by
    rw [htext]
    constructor <;> decide
  obtain ⟨_, hcut, hlast⟩ := short_eq_last_segment
  obtain ⟨_, cut, hsize, hsplits⟩ := (hcut gen.text).2 _ _ _ hparts
  have hoffset : cut.offset.byteIdx = 16 := by
    rw [hsplits.offset_eq_rawEndPos]
    decide
  exact ⟨(hlast gen).trans (by decide +kernel), hsize.symm.trans hoffset, cut, hoffset, hsplits⟩

end HandlerChain.Label
