/-!
Patterns with two wildcards, over any alphabet.

A pattern is matched by splitting a text among its tokens. A matcher that skips every wildcard
behind a `star` follows `collapse`; `collapse_same_iff` says for which patterns that makes no
difference.
-/

namespace VBox.Lib.Wildcard

open List

variable {α : Type}

/-- What a pattern is made of: any number of letters, any one letter, or a letter itself. -/
inductive Token (α : Type) where
  | star
  | any
  | char (a : α)
  deriving DecidableEq

/-- A text is split among the tokens of a pattern. -/
inductive Matches : List (Token α) → List α → Prop where
  | nil : Matches [] []
  | star {p : List (Token α)} {s : List α} (pre : List α) :
      Matches p s → Matches (.star :: p) (pre ++ s)
  | any {p : List (Token α)} {s : List α} (a : α) : Matches p s → Matches (.any :: p) (a :: s)
  | char {p : List (Token α)} {s : List α} (a : α) : Matches p s → Matches (.char a :: p) (a :: s)

section Matching

variable {p q : List (Token α)} {s : List α} {a : α}

theorem matches_nil_iff : Matches ([] : List (Token α)) s ↔ s = [] := by
  constructor
  · rintro ⟨⟩
    rfl
  · rintro rfl
    exact .nil

theorem matches_star_iff :
    Matches (.star :: p) s ↔ ∃ pre rest, s = pre ++ rest ∧ Matches p rest := by
  constructor
  · intro matching
    cases matching with
    | star pre rest => exact ⟨pre, _, rfl, rest⟩
  · rintro ⟨pre, rest, rfl, matching⟩
    exact .star pre matching

theorem matches_any_iff : Matches (.any :: p) s ↔ ∃ a rest, s = a :: rest ∧ Matches p rest := by
  constructor
  · intro matching
    cases matching with
    | any a rest => exact ⟨a, _, rfl, rest⟩
  · rintro ⟨a, rest, rfl, matching⟩
    exact .any a matching

theorem matches_char_iff : Matches (.char a :: p) s ↔ ∃ rest, s = a :: rest ∧ Matches p rest := by
  constructor
  · intro matching
    cases matching with
    | char _ rest => exact ⟨_, rfl, rest⟩
  · rintro ⟨rest, rfl, matching⟩
    exact .char a matching

/-- Two stars are as good as one. -/
theorem matches_star_star : Matches (.star :: .star :: p) s ↔ Matches (.star :: p) s := by
  constructor
  · intro matching
    obtain ⟨pre, rest, rfl, inner⟩ := matches_star_iff.mp matching
    obtain ⟨pre', rest, rfl, innermost⟩ := matches_star_iff.mp inner
    rw [← append_assoc]
    exact .star _ innermost
  · intro matching
    exact .star [] matching

/-- Patterns that match the same texts do so behind the same token. -/
theorem matches_cons_congr (t : Token α) (same : ∀ s, Matches p s ↔ Matches q s) :
    Matches (t :: p) s ↔ Matches (t :: q) s := by
  cases t with
  | star => simp only [matches_star_iff, same]
  | any => simp only [matches_any_iff, same]
  | char a => simp only [matches_char_iff, same]

/-- A star in front of a letter: the letter is looked for. -/
theorem matches_star_char_iff : Matches (.star :: .char a :: p) s ↔
    ∃ pre rest, s = pre ++ a :: rest ∧ Matches p rest := by
  rw [matches_star_iff]
  constructor
  · rintro ⟨pre, _, rfl, matching⟩
    obtain ⟨rest, rfl, inner⟩ := matches_char_iff.mp matching
    exact ⟨pre, rest, rfl, inner⟩
  · rintro ⟨pre, rest, rfl, inner⟩
    exact ⟨pre, _, rfl, .char a inner⟩

end Matching

/-! ### The shortest text -/

/-- The number of letters a pattern asks for. -/
def width : List (Token α) → Nat
  | [] => 0
  | .star :: p => width p
  | .any :: p => width p + 1
  | .char _ :: p => width p + 1

theorem Matches.width_le {p : List (Token α)} {s : List α} (matching : Matches p s) :
    width p ≤ s.length := by
  induction matching with
  | nil => exact Nat.le_refl 0
  | star pre _ ih =>
    rw [length_append]
    exact Nat.le_trans ih (Nat.le_add_left _ _)
  | any a _ ih => exact Nat.succ_le_succ ih
  | char a _ ih => exact Nat.succ_le_succ ih

/-- A text of that many letters, with a letter of one's choice where any will do. -/
def least (filler : α) : List (Token α) → List α
  | [] => []
  | .star :: p => least filler p
  | .any :: p => filler :: least filler p
  | .char a :: p => a :: least filler p

theorem matches_least (filler : α) (p : List (Token α)) : Matches p (least filler p) := by
  induction p with
  | nil => exact .nil
  | cons t p ih =>
    cases t with
    | star => exact .star [] ih
    | any => exact .any _ ih
    | char a => exact .char a ih

theorem length_least (filler : α) (p : List (Token α)) : (least filler p).length = width p := by
  induction p with
  | nil => rfl
  | cons t p ih =>
    cases t with
    | star => exact ih
    | any => exact congrArg (· + 1) ih
    | char a => exact congrArg (· + 1) ih

theorem mem_least {filler a : α} {p : List (Token α)} (member : a ∈ least filler p) :
    a = filler ∨ .char a ∈ p := by
  induction p with
  | nil => cases member
  | cons t p ih =>
    cases t with
    | star => exact (ih member).imp_right (mem_cons_of_mem _)
    | any =>
      rcases mem_cons.mp member with here | later
      · exact .inl here
      · exact (ih later).imp_right (mem_cons_of_mem _)
    | char b =>
      rcases mem_cons.mp member with rfl | later
      · exact .inr mem_cons_self
      · exact (ih later).imp_right (mem_cons_of_mem _)

/-! ### Collapsing -/

/-- Leave out every wildcard that follows a star; the flag says that one has just been. -/
def collapse : Bool → List (Token α) → List (Token α)
  | _, [] => []
  | true, .star :: p => collapse true p
  | true, .any :: p => collapse true p
  | true, .char a :: p => .char a :: collapse false p
  | false, .star :: p => .star :: collapse true p
  | false, .any :: p => .any :: collapse false p
  | false, .char a :: p => .char a :: collapse false p

/-- A star that has just been belongs to the pattern. -/
def lead : Bool → List (Token α) → List (Token α)
  | true, p => .star :: p
  | false, p => p

theorem width_collapse_le (behind : Bool) (p : List (Token α)) :
    width (collapse behind p) ≤ width p := by
  induction p generalizing behind with
  | nil => cases behind <;> exact Nat.le_refl 0
  | cons t p ih =>
    cases behind with
    | true =>
      cases t with
      | star => exact ih true
      | any => exact Nat.le_succ_of_le (ih true)
      | char a => exact Nat.succ_le_succ (ih false)
    | false =>
      cases t with
      | star => exact ih true
      | any => exact Nat.succ_le_succ (ih false)
      | char a => exact Nat.succ_le_succ (ih false)

theorem mem_collapse {behind : Bool} {t : Token α} {p : List (Token α)}
    (member : t ∈ collapse behind p) : t ∈ p := by
  induction p generalizing behind with
  | nil => cases behind <;> cases member
  | cons u p ih =>
    cases behind <;> cases u <;> simp only [collapse, mem_cons] at member ⊢
    · exact member.imp_right ih
    · exact member.imp_right ih
    · exact member.imp_right ih
    · exact .inr (ih member)
    · exact .inr (ih member)
    · exact member.imp_right ih

/-- Where a star and any letter stand side by side, collapsing loses a letter. -/
theorem width_collapse_lt {behind : Bool} {p : List (Token α)}
    (beside : [.star, .any] <:+: lead behind p) : width (collapse behind p) < width p := by
  induction p generalizing behind with
  | nil => cases behind <;> simp [lead, infix_cons_iff] at beside
  | cons t p ih =>
    cases behind with
    | true =>
      cases t with
      | star =>
        apply @ih true
        simpa [lead, infix_cons_iff, cons_prefix_cons] using beside
      | any => exact Nat.lt_succ_of_le (width_collapse_le true p)
      | char a =>
        apply Nat.succ_lt_succ
        apply @ih false
        simpa [lead, infix_cons_iff, cons_prefix_cons] using beside
    | false =>
      cases t with
      | star => exact @ih true beside
      | any =>
        apply Nat.succ_lt_succ
        apply @ih false
        simpa [lead, infix_cons_iff, cons_prefix_cons] using beside
      | char a =>
        apply Nat.succ_lt_succ
        apply @ih false
        simpa [lead, infix_cons_iff, cons_prefix_cons] using beside

/-- Elsewhere collapsing keeps what is matched. -/
theorem matches_collapse {behind : Bool} {p : List (Token α)}
    (apart : ¬ [.star, .any] <:+: lead behind p) (s : List α) :
    Matches (lead behind (collapse behind p)) s ↔ Matches (lead behind p) s := by
  induction p generalizing behind s with
  | nil => cases behind <;> exact Iff.rfl
  | cons t p ih =>
    cases behind with
    | true =>
      cases t with
      | star =>
        have apart' : ¬ [.star, .any] <:+: lead true p := fun beside => apart (infix_cons beside)
        exact (ih apart' s).trans matches_star_star.symm
      | any =>
        refine absurd ?_ apart
        exact ⟨[], p, rfl⟩
      | char a =>
        have apart' : ¬ [.star, .any] <:+: lead false p :=
          fun beside => apart (infix_cons (infix_cons beside))
        exact matches_cons_congr _ fun s => matches_cons_congr _ (ih apart')
    | false =>
      cases t with
      | star => exact @ih true apart s
      | any =>
        have apart' : ¬ [.star, .any] <:+: lead false p := fun beside => apart (infix_cons beside)
        exact matches_cons_congr _ (ih apart')
      | char a =>
        have apart' : ¬ [.star, .any] <:+: lead false p := fun beside => apart (infix_cons beside)
        exact matches_cons_congr _ (ih apart')

/-- Among the texts over some letters, those of the pattern with them, collapsing makes no
difference exactly for the patterns where no star stands directly before any letter. -/
theorem collapse_same_iff {p : List (Token α)} {letter : α → Prop} {filler : α}
    (allowed : letter filler) (letters : ∀ a, .char a ∈ p → letter a) :
    (∀ s, (∀ a ∈ s, letter a) → (Matches (collapse false p) s ↔ Matches p s)) ↔
      ¬ [.star, .any] <:+: p := by
  constructor
  · intro same beside
    have few := ((same (least filler (collapse false p)) fun a member =>
      (mem_least member).elim (fun here => here ▸ allowed) fun char =>
        letters a (mem_collapse char)).mp (matches_least filler _)).width_le
    rw [length_least] at few
    exact Nat.not_le.mpr (@width_collapse_lt _ false p beside) few
  · exact fun apart s _ => @matches_collapse _ false p apart s

end VBox.Lib.Wildcard
