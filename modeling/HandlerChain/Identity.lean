/-!
# Identities and tables

Promises, stages, contexts and pipelines are shared: two holders of the same one
see each other's changes. Each is therefore named by an `Ident`, and its present
contents live in a `Table`. Two laws say all that is used of a table: what is
read back after a write, and that an added entry is new.
-/

namespace HandlerChain

/-- The kinds of shared objects. -/
inductive Entity where
  | promise | component | combinator | stage | delegate | foreign | pipeline
deriving DecidableEq, Repr

/-- The name of one shared object of kind `e`. -/
structure Ident (e : Entity) where
  val : Nat
deriving DecidableEq, Repr

abbrev PromiseId := Ident .promise
abbrev ComponentId := Ident .component
abbrev CombinatorId := Ident .combinator
abbrev StageId := Ident .stage
abbrev DelegateId := Ident .delegate
abbrev ForeignId := Ident .foreign
abbrev PipelineId := Ident .pipeline

/-- The contents of all objects of kind `e`, one entry per identity in use. -/
structure Table (e : Entity) (α : Type) where
  entries : Array α := #[]
deriving Repr

namespace Table

variable {e : Entity} {α : Type}

def size (t : Table e α) : Nat := t.entries.size

/-- The identity that the next addition will get. -/
def next (t : Table e α) : Ident e := ⟨t.size⟩

def get [Inhabited α] (t : Table e α) (i : Ident e) : α := t.entries.getD i.val default

/-- Replace the contents of `i`. An identity beyond the table is made room for,
so that the law of reading back needs no side condition. -/
def set [Inhabited α] (t : Table e α) (i : Ident e) (a : α) : Table e α :=
  if i.val < t.entries.size then ⟨t.entries.setIfInBounds i.val a⟩
  else ⟨(t.entries ++ Array.replicate (i.val - t.entries.size) default).push a⟩

def modify [Inhabited α] (t : Table e α) (i : Ident e) (f : α → α) : Table e α :=
  t.set i (f (t.get i))

def add (t : Table e α) (a : α) : Table e α := ⟨t.entries.push a⟩

theorem get_set [Inhabited α] (t : Table e α) (i j : Ident e) (a : α) :
    (t.set i a).get j = if i = j then a else t.get j := by
  obtain ⟨i⟩ := i
  obtain ⟨j⟩ := j
  simp only [set, get, Ident.mk.injEq]
  split
  · rename_i h
    by_cases hij : i = j
    · subst hij; simp [h]
    · simp [hij, Array.getD_eq_getD_getElem?]
  · rename_i h
    have hsize : i = t.entries.size + (i - t.entries.size) := by omega
    simp only [Array.getD_eq_getD_getElem?, Array.getElem?_push, Array.size_append,
      Array.size_replicate, Array.getElem?_append, Array.getElem?_replicate]
    by_cases hij : i = j
    · subst hij; simp [← hsize]
    · have hji : ¬ j = t.entries.size + (i - t.entries.size) := by omega
      by_cases hj : j < t.entries.size
      · simp [hij, hji, hj]
      · have : t.entries[j]? = none := Array.getElem?_eq_none (by omega)
        simp only [hij, hji, hj, if_false, this]
        split <;> simp

@[simp] theorem get_set_self [Inhabited α] (t : Table e α) (i : Ident e) (a : α) :
    (t.set i a).get i = a := by
  simp [get_set]

theorem get_set_of_ne [Inhabited α] (t : Table e α) {i j : Ident e} (a : α) (h : i ≠ j) :
    (t.set i a).get j = t.get j := by
  simp [get_set, h]

theorem get_add [Inhabited α] (t : Table e α) (j : Ident e) (a : α) :
    (t.add a).get j = if t.next = j then a else t.get j := by
  obtain ⟨j⟩ := j
  simp only [add, get, next, size, Ident.mk.injEq, Array.getD_eq_getD_getElem?,
    Array.getElem?_push, eq_comm]
  split <;> simp

/-- Beyond its end a table reads as the default. -/
theorem get_of_size_le [Inhabited α] (t : Table e α) {i : Ident e} (h : t.size ≤ i.val) :
    t.get i = default := by
  have hnone : t.entries[i.val]? = none := Array.getElem?_eq_none h
  rw [get, Array.getD_eq_getD_getElem?, hnone, Option.getD_none]

/-- Before an entry is added, its place reads as the default. -/
theorem get_next [Inhabited α] (t : Table e α) : t.get t.next = default :=
  get_of_size_le t (Nat.le_refl _)

@[simp] theorem get_add_next [Inhabited α] (t : Table e α) (a : α) :
    (t.add a).get t.next = a := by
  simp [get_add]

theorem get_add_of_lt [Inhabited α] (t : Table e α) {i : Ident e} (a : α)
    (h : i.val < t.size) : (t.add a).get i = t.get i := by
  rw [get_add, if_neg]
  rintro rfl
  exact Nat.lt_irrefl _ h

@[simp] theorem size_add (t : Table e α) (a : α) : (t.add a).size = t.size + 1 := by
  simp [add, size]

/-- What is true of all entries, and of the default, is true of whatever is read. -/
theorem forall_get [Inhabited α] {P : α → Prop} (t : Table e α)
    (h : ∀ a ∈ t.entries.toList, P a) (hdefault : P default) (i : Ident e) : P (t.get i) := by
  by_cases hi : i.val < t.size
  · have hi : i.val < t.entries.size := hi
    rw [get, Array.getD_eq_getD_getElem?, Array.getElem?_eq_getElem hi, Option.getD_some]
    exact h _ (Array.getElem_mem_toList hi)
  · rw [get_of_size_le t (Nat.not_lt.1 hi)]
    exact hdefault

theorem size_set [Inhabited α] (t : Table e α) (i : Ident e) (a : α) :
    (t.set i a).size = max t.size (i.val + 1) := by
  unfold set size
  split
  · simp
    omega
  · simp
    omega

theorem size_le_set [Inhabited α] (t : Table e α) (i : Ident e) (a : α) :
    t.size ≤ (t.set i a).size := by
  unfold set size
  split
  · simp
  · simp

theorem lt_size_set [Inhabited α] (t : Table e α) (i : Ident e) (a : α) :
    i.val < (t.set i a).size := by
  unfold set size
  split
  · simpa
  · simp
    omega

/-! ### One table or two -/

/-- A table is known by its size and by what is read from it. -/
theorem ext_get [Inhabited α] {t t' : Table e α} (hsize : t.size = t'.size)
    (hget : ∀ i, t.get i = t'.get i) : t = t' := by
  obtain ⟨l⟩ := t
  obtain ⟨l'⟩ := t'
  congr 1
  refine Array.ext hsize fun i hi hi' => ?_
  have hread := hget ⟨i⟩
  simpa [get, Array.getD_eq_getD_getElem?, hi, hi'] using hread

theorem modify_modify [Inhabited α] (t : Table e α) (i : Ident e) (f g : α → α) :
    (t.modify i f).modify i g = t.modify i (g ∘ f) := by
  refine ext_get ?_ fun j => ?_
  · simp [modify, size_set]
  · simp only [modify, get_set]
    split <;> simp

theorem modify_comm [Inhabited α] (t : Table e α) {i j : Ident e} (h : i ≠ j) (f g : α → α) :
    (t.modify i f).modify j g = (t.modify j g).modify i f := by
  refine ext_get ?_ fun k => ?_
  · simp only [modify, size_set]
    omega
  · simp only [modify, get_set, if_neg h, if_neg h.symm]
    by_cases hi : i = k
    · subst hi
      simp [h.symm]
    · simp [hi]

theorem modify_of_eq [Inhabited α] {t : Table e α} {i : Ident e} {f : α → α}
    (hi : i.val < t.size) (h : f (t.get i) = t.get i) : t.modify i f = t := by
  refine ext_get ?_ fun j => ?_
  · rw [modify, size_set]
    omega
  · rw [modify, get_set, h]
    split
    · subst_vars
      rfl
    · rfl

theorem modify_add [Inhabited α] {t : Table e α} {i : Ident e} (hi : i.val < t.size) (f : α → α)
    (a : α) : (t.modify i f).add a = (t.add a).modify i f := by
  have hnext : (t.modify i f).next = t.next :=
    congrArg Ident.mk ((size_set ..).trans (Nat.max_eq_left hi))
  have hne : i ≠ t.next := by
    rintro rfl
    exact Nat.lt_irrefl _ hi
  refine ext_get ?_ fun j => ?_
  · simp only [modify, size_add, size_set]
    omega
  · rw [get_add, hnext, modify, modify, get_set, get_set, get_add, get_add, if_neg hne.symm]
    by_cases hj : t.next = j
    · subst hj
      rw [if_pos rfl, if_neg hne, if_pos rfl]
    · rw [if_neg hj, if_neg hj]

end Table

end HandlerChain
