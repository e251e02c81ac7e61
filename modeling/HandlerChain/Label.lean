/-!
# Stage labels

A combinator that is given no name is labelled by the names of its two component
types, without the path that leads to them. Type arguments keep their paths: only
what stands before the first angle bracket is searched for a separator.
-/

namespace HandlerChain.Label

/-- `best` is what follows the last separator seen so far. Separators may overlap, so
the search goes on at the second colon of the one just found. -/
def afterPath (best : List Char) : List Char → List Char
  | [] => best
  | '<' :: _ => best
  | ':' :: ':' :: rest => afterPath rest (':' :: rest)
  | _ :: rest => afterPath best rest

/-- The type name without the path before it. -/
def short (typeName : String) : String :=
  String.ofList (afterPath typeName.toList typeName.toList)

/-- The label of a combinator of two component types that was given no name. -/
def ofTypes (inbound outbound : String) : String := short inbound ++ "+" ++ short outbound

variable {best l before : List Char} {c : Char}

theorem afterPath_cons (hc : c ≠ '<') :
    afterPath best (c :: l) =
      afterPath (if c = ':' ∧ l.head? = some ':' then l.tail else best) l := by
  by_cases hpair : c = ':' ∧ l.head? = some ':'
  · rw [if_pos hpair]
    obtain ⟨rfl, hl⟩ := hpair
    obtain ⟨rest, rfl⟩ := List.head?_eq_some_iff.1 hl
    rfl
  · rw [if_neg hpair]
    refine afterPath.eq_4 best c l hc ?_
    rintro rest rfl rfl
    exact hpair ⟨rfl, rfl⟩

/-- What stands before the first angle bracket is passed, whatever it holds. -/
theorem afterPath_append (h : '<' ∉ before) (best l : List Char) :
    ∃ best', afterPath best (before ++ l) = afterPath best' l := by
  induction before generalizing best with
  | nil => exact ⟨best, rfl⟩
  | cons c before ih =>
    rw [List.mem_cons, not_or] at h
    rw [List.cons_append, afterPath_cons (Ne.symm h.1)]
    exact ih h.2 _

end HandlerChain.Label
