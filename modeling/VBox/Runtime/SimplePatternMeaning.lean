import VBox.Runtime.SimplePattern

/-!
When simple patterns mean what the header says.

The loop behind an asterisk skips question marks as well, so a string is matched against the
collapsed pattern. The bounded matcher does the same to the texts cut at their ends, and the one for
several patterns never tries an empty last pattern.
-/

namespace VBox.Runtime.SimplePattern

open List
open VBox.Lib.Wildcard (Token Matches matches_nil_iff matches_star_iff matches_any_iff
  matches_char_iff matches_star_char_iff collapse lead collapse_same_iff)

/-! ### The tokens of a pattern -/

section Tokens

variable {ch : UInt8} {pat str : List UInt8}

theorem token_asterisk : token chAsterisk = .star := if_pos rfl

theorem token_question : token chQuestion = .any := rfl

theorem token_char (asterisk : ch ≠ chAsterisk) (question : ch ≠ chQuestion) :
    token ch = .char ch := by
  rw [token, if_neg asterisk, if_neg question]

theorem token_eq_star (star : token ch = .star) : ch = chAsterisk := by
  unfold token at star
  split at star
  case isTrue asterisk => exact asterisk
  case isFalse => split at star <;> cases star

theorem token_eq_any (any : token ch = .any) : ch = chQuestion := by
  unfold token at any
  split at any
  case isTrue => cases any
  case isFalse =>
    split at any
    case isTrue question => exact question
    case isFalse => cases any

theorem token_eq_char {a : UInt8} (char : token ch = .char a) : ch = a := by
  unfold token at char
  split at char
  case isTrue => cases char
  case isFalse =>
    split at char
    case isTrue => cases char
    case isFalse => exact Token.char.inj char

/-- An asterisk directly before a question mark, in the pattern and in its tokens. -/
theorem beside_tokens : [.star, .any] <:+: pat.map token ↔ [chAsterisk, chQuestion] <:+: pat := by
  constructor
  · rintro ⟨pre, post, split⟩
    rw [append_assoc] at split
    obtain ⟨first, rest, rfl, rfl, behind⟩ := map_eq_append_iff.mp split.symm
    obtain ⟨a, rest, rfl, star, behind⟩ := map_eq_cons_iff.mp behind
    obtain ⟨b, rest, rfl, any, rfl⟩ := map_eq_cons_iff.mp behind
    rw [token_eq_star star, token_eq_any any]
    exact ⟨first, rest, by rw [append_assoc]; rfl⟩
  · exact fun beside => beside.map token

end Tokens

/-! ### Terminated strings -/

section Terminated

variable {chPat : UInt8} {str : List UInt8}

theorem find_eq_true_iff {rest : List UInt8 → Bool} : find chPat rest str = true ↔
    ∃ pre tail, str = pre ++ chPat :: tail ∧ rest tail = true := by
  induction str with
  | nil =>
    constructor
    · intro found
      cases found
    · rintro ⟨pre, tail, split, _⟩
      cases pre <;> cases split
  | cons chStr str ih =>
    rw [find, Bool.or_eq_true, Bool.and_eq_true, beq_iff_eq, ih]
    constructor
    · rintro (⟨rfl, here⟩ | ⟨pre, tail, rfl, later⟩)
      · exact ⟨[], str, rfl, here⟩
      · exact ⟨chStr :: pre, tail, rfl, later⟩
    · rintro ⟨pre, tail, split, matched⟩
      cases pre with
      | nil =>
        obtain ⟨rfl, rfl⟩ := cons.inj split
        exact .inl ⟨rfl, matched⟩
      | cons a pre =>
        obtain ⟨rfl, rfl⟩ := cons.inj split
        exact .inr ⟨pre, tail, rfl, matched⟩

example : simplePatternMatch false [chQuestion] [0x41] = true := by
  rw [simplePatternMatch]
  rfl

theorem simplePatternMatch_asterisk (pat str : List UInt8) :
    simplePatternMatch false (chAsterisk :: pat) str = simplePatternMatch true pat str := by
  cases str <;> rfl

theorem simplePatternMatch_cons {chPat : UInt8} (asterisk : chPat ≠ chAsterisk)
    (pat : List UInt8) (chStr : UInt8) (str : List UInt8) :
    simplePatternMatch false (chPat :: pat) (chStr :: str) =
      if chPat = chQuestion ∨ chStr = chPat then simplePatternMatch false pat str else false := by
  simp only [simplePatternMatch, if_neg asterisk]

theorem simplePatternMatch_nil {chPat : UInt8} (asterisk : chPat ≠ chAsterisk)
    (pat : List UInt8) : simplePatternMatch false (chPat :: pat) [] = false := by
  simp only [simplePatternMatch, if_neg asterisk]

/-- The matcher follows the collapsed pattern. -/
theorem simplePatternMatch_iff (skipping : Bool) (pat str : List UInt8) :
    simplePatternMatch skipping pat str = true ↔
      Matches (lead skipping (collapse skipping (pat.map token))) str := by
  induction pat generalizing skipping str with
  | nil =>
    cases skipping with
    | false => exact List.isEmpty_iff.trans matches_nil_iff.symm
    | true =>
      refine ⟨fun _ => ?_, fun _ => rfl⟩
      exact matches_star_iff.mpr ⟨str, [], (append_nil str).symm, .nil⟩
  | cons chPat pat ih =>
    by_cases asterisk : chPat = chAsterisk
    · subst asterisk
      rw [map_cons, token_asterisk]
      cases skipping with
      | false =>
        rw [simplePatternMatch_asterisk]
        exact ih true str
      | true =>
        rw [simplePatternMatch, if_pos (.inl rfl)]
        exact ih true str
    · by_cases question : chPat = chQuestion
      · subst question
        rw [map_cons, token_question]
        cases skipping with
        | true =>
          rw [simplePatternMatch, if_pos (.inr rfl)]
          exact ih true str
        | false =>
          show _ ↔ Matches (.any :: collapse false (pat.map token)) str
          rw [matches_any_iff]
          cases str with
          | nil =>
            rw [simplePatternMatch_nil asterisk]
            constructor
            · intro matched
              cases matched
            · rintro ⟨_, _, split, _⟩
              cases split
          | cons chStr str =>
            rw [simplePatternMatch_cons asterisk, if_pos (.inl rfl), ih false str]
            constructor
            · exact fun matched => ⟨chStr, str, rfl, matched⟩
            · rintro ⟨_, _, split, matched⟩
              obtain ⟨rfl, rfl⟩ := cons.inj split
              exact matched
      · rw [map_cons, token_char asterisk question]
        cases skipping with
        | true =>
          rw [simplePatternMatch, if_neg (not_or.mpr ⟨asterisk, question⟩), find_eq_true_iff]
          show _ ↔ Matches (.star :: .char chPat :: collapse false (pat.map token)) str
          rw [matches_star_char_iff]
          simp only [ih false]
          rfl
        | false =>
          show _ ↔ Matches (.char chPat :: collapse false (pat.map token)) str
          rw [matches_char_iff]
          cases str with
          | nil =>
            rw [simplePatternMatch_nil asterisk]
            constructor
            · intro matched
              cases matched
            · rintro ⟨_, split, _⟩
              cases split
          | cons chStr str =>
            rw [simplePatternMatch_cons asterisk]
            by_cases same : chStr = chPat
            · rw [if_pos (.inr same), ih false str, same]
              constructor
              · exact fun matched => ⟨str, rfl, matched⟩
              · rintro ⟨_, split, matched⟩
                rw [(cons.inj split).2]
                exact matched
            · rw [if_neg (not_or.mpr ⟨question, same⟩)]
              constructor
              · intro matched
                cases matched
              · rintro ⟨_, split, _⟩
                exact absurd (cons.inj split).1 same

/-- A pattern means what it should exactly if no asterisk stands directly before a question
mark. -/
theorem match_means_iff (pattern : CString) :
    (∀ string : CString, rtStrSimplePatternMatch pattern.1 string.1 = true ↔
        Matches (pattern.1.map token) string.1) ↔ ¬ [chAsterisk, chQuestion] <:+: pattern.1 := by
  have letters : ∀ a, .char a ∈ pattern.1.map token → a ≠ 0 := by
    intro a member zero
    obtain ⟨ch, inside, char⟩ := mem_map.mp member
    rw [token_eq_char char, zero] at inside
    exact pattern.2 inside
  have allowed : (1 : UInt8) ≠ 0 := by decide
  rw [← beside_tokens, ← @collapse_same_iff _ _ (· ≠ 0) 1 allowed letters]
  constructor
  · intro means s nonzero
    have here := means ⟨s, fun member => nonzero 0 member rfl⟩
    exact (simplePatternMatch_iff false pattern.1 s).symm.trans here
  · intro same string
    have nonzero : ∀ a ∈ string.1, a ≠ 0 := by
      rintro a member rfl
      exact string.2 member
    exact (simplePatternMatch_iff false pattern.1 string.1).trans (same string.1 nonzero)

end Terminated

/-! ### Limits -/

section Limits

variable {pat str : Nat → UInt8} {endPattern endString : Nat} {matched : Bool} {answer : Answer}

/-- An answer, with nothing examined at or behind the ends. -/
structure Answers (answer : Answer) (matched : Bool) (endPattern endString : Nat) : Prop where
  matched : answer.matched = matched
  pattern : ∀ i ∈ answer.pattern, i < endPattern
  string : ∀ i ∈ answer.string, i < endString

namespace Answers

theorem done (matched : Bool) : Answers (.done matched) matched endPattern endString :=
  ⟨rfl, (fun _ member => nomatch member), fun _ member => nomatch member⟩

theorem readPattern (answers : Answers answer matched endPattern endString) {i : Nat}
    (inside : i < endPattern) : Answers (answer.readPattern i) matched endPattern endString :=
  ⟨answers.matched, forall_mem_cons.mpr ⟨inside, answers.pattern⟩, answers.string⟩

theorem readString (answers : Answers answer matched endPattern endString) {i : Nat}
    (inside : i < endString) : Answers (answer.readString i) matched endPattern endString :=
  ⟨answers.matched, answers.pattern, forall_mem_cons.mpr ⟨inside, answers.string⟩⟩

theorem orElse {other : Answer} {matched' : Bool}
    (answers : Answers answer matched endPattern endString)
    (others : Answers other matched' endPattern endString) :
    Answers (answer.orElse other) (matched || matched') endPattern endString := by
  unfold Answer.orElse
  rw [answers.matched]
  cases matched with
  | true => exact answers
  | false =>
    exact ⟨others.matched, forall_mem_append.mpr ⟨answers.pattern, others.pattern⟩,
      forall_mem_append.mpr ⟨answers.string, others.string⟩⟩

end Answers

theorem answers_nFind {chPat : UInt8} (nonzero : chPat ≠ 0) {rest : Nat → Nat → Answer}
    {rest' : List UInt8 → Bool} (follows : ∀ cch i, i + cch = endString →
      Answers (rest cch i) (rest' (cut str cch i)) endPattern endString)
    (cchString iStr : Nat) (ends : iStr + cchString = endString) :
    Answers (nFind str chPat rest cchString iStr) (find chPat rest' (cut str cchString iStr))
      endPattern endString := by
  induction cchString generalizing iStr with
  | zero => exact .done false
  | succ cchString ih =>
    have inside : iStr < endString := by omega
    have ends' : iStr + 1 + cchString = endString := by omega
    rw [nFind, cut]
    apply Answers.readString _ inside
    by_cases here : str iStr = chPat
    · rw [if_pos here, here, if_neg nonzero, find, beq_self_eq_true, Bool.true_and]
      exact (follows cchString (iStr + 1) ends').orElse (ih (iStr + 1) ends')
    · rw [if_neg here]
      by_cases zero : str iStr = 0
      · rw [if_pos zero, if_pos zero]
        exact .done false
      · rw [if_neg zero, if_neg zero, find, beq_false_of_ne here, Bool.false_and, Bool.false_or]
        exact ih (iStr + 1) ends'

theorem answers_nEnd (cchString iStr : Nat) (ends : iStr + cchString = endString) :
    Answers (nEnd str cchString iStr) (simplePatternMatch false [] (cut str cchString iStr))
      endPattern endString := by
  unfold nEnd
  cases cchString with
  | zero => exact .done true
  | succ cchString =>
    rw [if_neg (Nat.succ_ne_zero cchString), cut]
    refine Answers.readString ?_ (by omega)
    by_cases zero : str iStr = 0
    · rw [if_pos zero, decide_eq_true zero]
      exact .done true
    · rw [if_neg zero, decide_eq_false zero]
      exact .done false

/-- The bounded matcher does to what it has got what the other one does to it cut. -/
theorem answers_nMatch (cchPattern iPat cchString iStr : Nat) (skipping : Bool)
    (endsPattern : iPat + cchPattern = endPattern) (ends : iStr + cchString = endString) :
    Answers (nMatch pat str cchPattern iPat cchString iStr skipping)
      (simplePatternMatch skipping (cut pat cchPattern iPat) (cut str cchString iStr))
      endPattern endString := by
  induction cchPattern generalizing iPat cchString iStr skipping with
  | zero =>
    cases skipping with
    | false => exact answers_nEnd cchString iStr ends
    | true => exact .done true
  | succ cchPattern ih =>
    have inside : iPat < endPattern := by omega
    have endsPattern' : iPat + 1 + cchPattern = endPattern := by omega
    cases skipping with
    | true =>
      rw [nMatch, cut]
      apply Answers.readPattern _ inside
      by_cases wild : pat iPat = chAsterisk ∨ pat iPat = chQuestion
      · have nonzero : pat iPat ≠ 0 := by
          rcases wild with here | here <;>
          · rw [here]
            decide
        rw [if_pos wild, if_neg nonzero, simplePatternMatch, if_pos wild]
        exact ih (iPat + 1) cchString iStr true endsPattern' ends
      · rw [if_neg wild]
        by_cases zero : pat iPat = 0
        · rw [if_pos zero, if_pos zero]
          exact .done true
        · rw [if_neg zero, if_neg zero, simplePatternMatch, if_neg wild]
          exact answers_nFind zero (fun cch i => ih (iPat + 1) cch i false endsPattern')
            cchString iStr ends
    | false =>
      rw [nMatch.eq_def, cut]
      apply Answers.readPattern _ inside
      by_cases asterisk : pat iPat = chAsterisk
      · have nonzero : pat iPat ≠ 0 := by
          rw [asterisk]
          decide
        rw [if_pos asterisk, if_neg nonzero, asterisk, simplePatternMatch_asterisk]
        exact ih (iPat + 1) cchString iStr true endsPattern' ends
      · rw [if_neg asterisk]
        by_cases zero : pat iPat = 0
        · rw [if_pos zero, if_pos zero]
          exact answers_nEnd cchString iStr ends
        · rw [if_neg zero, if_neg zero]
          cases cchString with
          | zero =>
            rw [cut, simplePatternMatch_nil asterisk]
            exact .done false
          | succ cchString =>
            have ends' : iStr + 1 + cchString = endString := by omega
            have next := ih (iPat + 1) cchString (iStr + 1) false endsPattern' ends'
            refine Answers.readString ?_ (by omega)
            rw [cut]
            by_cases question : pat iPat = chQuestion
            · rw [if_pos question]
              by_cases terminator : str iStr = 0
              · rw [if_pos terminator, if_pos terminator, simplePatternMatch_nil asterisk]
                exact .done false
              · rw [if_neg terminator, if_neg terminator,
                  simplePatternMatch_cons asterisk, if_pos (.inl question)]
                exact next
            · rw [if_neg question]
              by_cases same : str iStr = pat iPat
              · rw [if_pos same, if_neg (same ▸ zero), simplePatternMatch_cons asterisk,
                  if_pos (.inr same)]
                exact next
              · rw [if_neg same]
                by_cases terminator : str iStr = 0
                · rw [if_pos terminator, simplePatternMatch_nil asterisk]
                  exact .done false
                · rw [if_neg terminator, simplePatternMatch_cons asterisk,
                    if_neg (not_or.mpr ⟨question, same⟩)]
                  exact .done false

/-- `RTStrSimplePatternNMatch` agrees with `RTStrSimplePatternMatch` on the texts cut at their ends,
and examines nothing at or behind a limit. -/
theorem nMatch_agrees (pat : Nat → UInt8) (cchPattern : Nat) (str : Nat → UInt8) (cchString : Nat) :
    Answers (rtStrSimplePatternNMatch pat cchPattern str cchString)
      (rtStrSimplePatternMatch (cut pat cchPattern 0) (cut str cchString 0)) cchPattern cchString :=
  answers_nMatch cchPattern 0 cchString 0 false (Nat.zero_add _) (Nat.zero_add _)

end Limits

/-! ### Several patterns -/

section Several

variable {pats str : Nat → UInt8} {cchString : Nat} {answer : MultiAnswer}

/-- The first alternative that matches. -/
def firstMatch (str : List UInt8) (alts : List (Nat × List UInt8)) : Option Nat :=
  (alts.find? fun alternative => rtStrSimplePatternMatch alternative.2 str).map Prod.fst

/-- What several patterns should do: the offset of the first that matches, and nothing examined at
or behind a limit. -/
structure MultiMeans (pats : Nat → UInt8) (cchPatterns : Nat) (str : Nat → UInt8)
    (cchString : Nat) : Prop where
  off : (rtStrSimplePatternMultiMatch pats cchPatterns str cchString).offMatchingPattern =
    firstMatch (cut str cchString 0) (alternatives 0 [] (cut pats cchPatterns 0))
  patterns : ∀ i ∈ (rtStrSimplePatternMultiMatch pats cchPatterns str cchString).patterns,
    i < cchPatterns
  string : ∀ i ∈ (rtStrSimplePatternMultiMatch pats cchPatterns str cchString).string,
    i < cchString

theorem alternatives_ne_nil (off : Nat) (pre text : List UInt8) :
    alternatives off pre text ≠ [] := by
  induction text generalizing off pre with
  | nil => exact cons_ne_nil _ _
  | cons ch text ih =>
    rw [alternatives]
    split
    · exact cons_ne_nil _ _
    · exact ih off _

variable {alts : List (Nat × List UInt8)}

theorem overlooked_cons {alt : Nat × List UInt8} (some : alts ≠ []) (str : List UInt8) :
    overlooked str (alt :: alts) = (!rtStrSimplePatternMatch alt.2 str && overlooked str alts) := by
  cases alts with
  | nil => exact absurd rfl some
  | cons next rest => rfl

/-- What an alternative that is overlooked would match. -/
theorem firstMatch_overlooked {str : List UInt8} (skipped : overlooked str alts = true) :
    firstMatch str alts = none ↔ str ≠ [] := by
  induction alts with
  | nil => cases skipped
  | cons alt alts ih =>
    by_cases last : alts = []
    · subst last
      have empty : alt.2 = [] := List.isEmpty_iff.mp skipped
      have matching : rtStrSimplePatternMatch alt.2 str = str.isEmpty := by
        rw [empty]
        rfl
      unfold firstMatch
      rw [find?_cons, matching]
      cases str with
      | nil => simp
      | cons ch str => simp
    · rw [overlooked_cons last, Bool.and_eq_true, Bool.not_eq_true'] at skipped
      unfold firstMatch at ih ⊢
      rw [find?_cons, skipped.1]
      exact ih skipped.2

/-- What the loop finds, from a list of alternatives on. -/
structure Tries (str : List UInt8) (alts : List (Nat × List UInt8)) (reached : Prop)
    (limit cchString : Nat) (answer : MultiAnswer) : Prop where
  off : answer.offMatchingPattern = if overlooked str alts then none else firstMatch str alts
  inside : ∀ i ∈ answer.patterns, i < limit ∨ i = limit ∧ overlooked str alts = true ∧ reached
  behind : overlooked str alts = true → reached → limit ∈ answer.patterns
  string : ∀ i ∈ answer.string, i < cchString

variable {iCur : Nat}

/-- The head of the loop: an empty rest is not looked at any more. -/
theorem tries_multiHead {cchPatterns : Nat} {loop : MultiAnswer}
    (goes : cut pats cchPatterns iCur ≠ [] →
      Tries (cut str cchString 0) (alternatives iCur [] (cut pats cchPatterns iCur))
        ((cut pats cchPatterns iCur).length = cchPatterns) (iCur + cchPatterns) cchString loop) :
    Tries (cut str cchString 0) (alternatives iCur [] (cut pats cchPatterns iCur))
      ((cut pats cchPatterns iCur).length = cchPatterns) (iCur + cchPatterns) cchString
      (multiHead pats cchPatterns iCur loop) := by
  unfold multiHead
  by_cases ends : pats iCur = 0 ∨ cchPatterns = 0
  · have none : cut pats cchPatterns iCur = [] := by
      cases cchPatterns with
      | zero => rfl
      | succ cch => exact if_pos (ends.resolve_right (Nat.succ_ne_zero cch))
    rw [if_pos ends, none]
    refine ⟨rfl, ?_, fun _ reached => ?_, fun _ member => nomatch member⟩
    · intro i member
      obtain rfl : i = iCur := mem_singleton.mp member
      cases cchPatterns with
      | zero => exact .inr ⟨rfl, rfl, rfl⟩
      | succ cch => exact .inl (Nat.lt_add_of_pos_right (Nat.succ_pos cch))
    · have zero : cchPatterns = 0 := reached.symm
      rw [zero]
      exact mem_singleton.mpr rfl
  · obtain ⟨nonzero, left⟩ := not_or.mp ends
    rw [if_neg ends]
    obtain ⟨cch, rfl⟩ := Nat.exists_eq_succ_of_ne_zero left
    have some : cut pats (cch + 1) iCur ≠ [] := by
      rw [cut, if_neg nonzero]
      exact cons_ne_nil _ _
    have loops := goes some
    refine ⟨loops.off, ?_, fun skipped reached => ?_, loops.string⟩
    · exact forall_mem_cons.mpr ⟨.inl (Nat.lt_add_of_pos_right (Nat.succ_pos cch)), loops.inside⟩
    · exact mem_cons_of_mem _ (loops.behind skipped reached)

variable {iEnd : Nat}

theorem multiTry_matched (next : MultiAnswer)
    (matched : (nMatch pats str (iEnd - iCur) iCur cchString 0 false).matched = true) :
    multiTry pats str cchString iCur iEnd next =
      ⟨some iCur, (nMatch pats str (iEnd - iCur) iCur cchString 0 false).pattern,
        (nMatch pats str (iEnd - iCur) iCur cchString 0 false).string⟩ := if_pos matched

theorem multiTry_failed (next : MultiAnswer)
    (failed : (nMatch pats str (iEnd - iCur) iCur cchString 0 false).matched = false) :
    multiTry pats str cchString iCur iEnd next = ⟨next.offMatchingPattern,
        (nMatch pats str (iEnd - iCur) iCur cchString 0 false).pattern ++ next.patterns,
        (nMatch pats str (iEnd - iCur) iCur cchString 0 false).string ++ next.string⟩ :=
  if_neg (Bool.eq_false_iff.mp failed)

variable {limit : Nat} {reached : Prop}

/-- A pattern is tried, with others behind it. -/
theorem tries_multiTry {next : MultiAnswer} (ordered : iCur ≤ iEnd) (before : iEnd ≤ limit)
    (some : alts ≠ []) (follows : Tries (cut str cchString 0) alts reached limit cchString next) :
    Tries (cut str cchString 0) ((iCur, cut pats (iEnd - iCur) iCur) :: alts) reached limit
      cchString (multiTry pats str cchString iCur iEnd next) := by
  have answers := @answers_nMatch pats str iEnd cchString (iEnd - iCur) iCur cchString 0 false
    (Nat.add_sub_of_le ordered) (Nat.zero_add _)
  have matched : rtStrSimplePatternMatch (cut pats (iEnd - iCur) iCur) (cut str cchString 0) =
    (nMatch pats str (iEnd - iCur) iCur cchString 0 false).matched := answers.matched.symm
  cases here : (nMatch pats str (iEnd - iCur) iCur cchString 0 false).matched with
  | true =>
    rw [multiTry_matched next here]
    rw [here] at matched
    have seen : overlooked (cut str cchString 0) ((iCur, cut pats (iEnd - iCur) iCur) :: alts) =
        false := by
      rw [overlooked_cons some, matched]
      rfl
    refine ⟨?_, fun i member => .inl ?_, fun skipped => ?_, answers.string⟩
    · rw [seen, firstMatch, find?_cons, matched]
      rfl
    · exact Nat.lt_of_lt_of_le (answers.pattern i member) before
    · rw [seen] at skipped
      cases skipped
  | false =>
    rw [multiTry_failed next here]
    rw [here] at matched
    have same : overlooked (cut str cchString 0) ((iCur, cut pats (iEnd - iCur) iCur) :: alts) =
        overlooked (cut str cchString 0) alts := by
      rw [overlooked_cons some, matched]
      rfl
    refine ⟨?_, ?_, fun skipped reached => ?_, ?_⟩
    · rw [same, firstMatch, find?_cons, matched]
      exact follows.off
    · rw [same]
      refine forall_mem_append.mpr ⟨fun i member => .inl ?_, follows.inside⟩
      exact Nat.lt_of_lt_of_le (answers.pattern i member) before
    · rw [same] at skipped
      exact mem_append_right _ (follows.behind skipped reached)
    · exact forall_mem_append.mpr ⟨answers.string, follows.string⟩

/-- The last pattern is tried if it is not empty. -/
theorem tries_multiTry_last (ordered : iCur ≤ iEnd) (before : iEnd ≤ limit)
    (some : cut pats (iEnd - iCur) iCur ≠ []) :
    Tries (cut str cchString 0) [(iCur, cut pats (iEnd - iCur) iCur)] reached limit cchString
      (multiTry pats str cchString iCur iEnd ⟨none, [], []⟩) := by
  have answers := @answers_nMatch pats str iEnd cchString (iEnd - iCur) iCur cchString 0 false
    (Nat.add_sub_of_le ordered) (Nat.zero_add _)
  have matched : rtStrSimplePatternMatch (cut pats (iEnd - iCur) iCur) (cut str cchString 0) =
    (nMatch pats str (iEnd - iCur) iCur cchString 0 false).matched := answers.matched.symm
  have seen : overlooked (cut str cchString 0) [(iCur, cut pats (iEnd - iCur) iCur)] = false :=
    Bool.eq_false_iff.mpr fun empty => some (List.isEmpty_iff.mp empty)
  cases here : (nMatch pats str (iEnd - iCur) iCur cchString 0 false).matched with
  | true =>
    rw [multiTry_matched _ here]
    rw [here] at matched
    refine ⟨?_, fun i member => .inl ?_, fun skipped => ?_, answers.string⟩
    · rw [seen, firstMatch, find?_cons, matched]
      rfl
    · exact Nat.lt_of_lt_of_le (answers.pattern i member) before
    · rw [seen] at skipped
      cases skipped
  | false =>
    rw [multiTry_failed _ here]
    rw [here] at matched
    refine ⟨?_, fun i member => .inl ?_, fun skipped => ?_, ?_⟩
    · rw [seen, firstMatch, find?_cons, matched]
      rfl
    · rw [append_nil] at member
      exact Nat.lt_of_lt_of_le (answers.pattern i member) before
    · rw [seen] at skipped
      cases skipped
    · exact forall_mem_append.mpr ⟨answers.string, fun _ member => nomatch member⟩

theorem cut_pre (ordered : iCur ≤ iEnd) (whole : (cut pats (iEnd - iCur) iCur).length = iEnd - iCur)
    (nonzero : pats iEnd ≠ 0) :
    cut pats (iEnd + 1 - iCur) iCur = cut pats (iEnd - iCur) iCur ++ [pats iEnd] := by
  obtain ⟨d, rfl⟩ := Nat.exists_eq_add_of_le ordered
  rw [Nat.add_assoc, Nat.add_sub_cancel_left, Nat.add_sub_cancel_left] at *
  induction d generalizing iCur with
  | zero => exact if_neg nonzero
  | succ d ih =>
    rw [cut] at whole
    by_cases zero : pats iCur = 0
    · rw [if_pos zero] at whole
      cases whole
    · rw [if_neg zero, length_cons] at whole
      have shifted : iCur + 1 + d = iCur + (d + 1) := by omega
      have inner := ih (Nat.le_add_right (iCur + 1) d) (Nat.succ.inj whole) (shifted.symm ▸ nonzero)
      rw [cut, if_neg zero, inner, cut, if_neg zero, shifted, cons_append]

/-- The scan for the end of a pattern, some characters of which have been read. -/
theorem tries_multiScan (cchPatterns iCur iEnd : Nat) (ordered : iCur ≤ iEnd)
    (whole : (cut pats (iEnd - iCur) iCur).length = iEnd - iCur)
    (some : cut pats (iEnd - iCur) iCur = [] → cut pats cchPatterns iEnd ≠ []) :
    Tries (cut str cchString 0)
      (alternatives iCur (cut pats (iEnd - iCur) iCur) (cut pats cchPatterns iEnd))
      ((cut pats cchPatterns iEnd).length = cchPatterns) (iEnd + cchPatterns) cchString
      (multiScan pats str cchString cchPatterns iCur iEnd) := by
  induction cchPatterns generalizing iCur iEnd with
  | zero =>
    rw [multiScan, cut, alternatives]
    exact tries_multiTry_last ordered (Nat.le_add_right _ _) fun none => some none rfl
  | succ cchPatterns ih =>
    have limit : iEnd + (cchPatterns + 1) = iEnd + 1 + cchPatterns := by omega
    have read : ∀ {alts reached answer}, Tries (cut str cchString 0) alts reached
        (iEnd + (cchPatterns + 1)) cchString answer →
        Tries (cut str cchString 0) alts reached (iEnd + (cchPatterns + 1)) cchString
          (answer.readPatterns iEnd) := by
      intro alts reached answer tries
      refine ⟨tries.off, ?_, fun skipped reached => ?_, tries.string⟩
      · exact forall_mem_cons.mpr ⟨.inl (Nat.lt_add_of_pos_right (Nat.succ_pos _)), tries.inside⟩
      · exact mem_cons_of_mem _ (tries.behind skipped reached)
    rw [multiScan]
    apply read
    by_cases zero : pats iEnd = 0
    · have none : cut pats (cchPatterns + 1) iEnd = [] := if_pos zero
      rw [if_pos zero, none, alternatives]
      exact tries_multiTry_last ordered (Nat.le_add_right _ _) fun empty => some empty none
    · have longer : cut pats (cchPatterns + 1) iEnd =
          pats iEnd :: cut pats cchPatterns (iEnd + 1) := if_neg zero
      have reached : ((cut pats (cchPatterns + 1) iEnd).length = cchPatterns + 1) =
          ((cut pats cchPatterns (iEnd + 1)).length = cchPatterns) := by
        rw [longer, length_cons, Nat.add_right_cancel_iff]
      rw [if_neg zero, reached, longer, limit, alternatives]
      by_cases pipe : pats iEnd = chPipe
      · rw [if_pos pipe, if_pos pipe, whole]
        have next : iCur + (iEnd - iCur) + 1 = iEnd + 1 := by omega
        rw [next]
        refine tries_multiTry ordered (by omega) (alternatives_ne_nil _ _ _)
          (tries_multiHead fun more => ?_)
        have start : cut pats (iEnd + 1 - (iEnd + 1)) (iEnd + 1) = [] := by
          rw [Nat.sub_self]
          rfl
        have scans := ih (iEnd + 1) (iEnd + 1) (Nat.le_refl _)
          (by rw [start, Nat.sub_self]; rfl) fun _ => more
        rwa [start] at scans
      · have pre := cut_pre ordered whole zero
        have length : (cut pats (iEnd + 1 - iCur) iCur).length = iEnd + 1 - iCur := by
          rw [pre, length_append, whole, length_singleton]
          omega
        rw [if_neg pipe, if_neg pipe, ← pre]
        refine ih iCur (iEnd + 1) (Nat.le_succ_of_le ordered) length fun empty => ?_
        rw [pre] at empty
        exact absurd empty (append_ne_nil_of_right_ne_nil _ (cons_ne_nil _ _))

/-- Several patterns are matched right, unless the last one is empty, none before it matches, and
either it would or it lies at the limit. -/
theorem multiMeans_iff (pats : Nat → UInt8) (cchPatterns : Nat) (str : Nat → UInt8)
    (cchString : Nat) : MultiMeans pats cchPatterns str cchString ↔
      ¬ (overlooked (cut str cchString 0) (alternatives 0 [] (cut pats cchPatterns 0)) = true ∧
        (cut str cchString 0 = [] ∨ (cut pats cchPatterns 0).length = cchPatterns)) := by
  have tries : Tries (cut str cchString 0) (alternatives 0 [] (cut pats cchPatterns 0))
      ((cut pats cchPatterns 0).length = cchPatterns) (0 + cchPatterns) cchString
      (rtStrSimplePatternMultiMatch pats cchPatterns str cchString) :=
    tries_multiHead fun some => tries_multiScan cchPatterns 0 0 (Nat.le_refl 0) rfl fun _ => some
  rw [Nat.zero_add] at tries
  constructor
  · rintro means ⟨skipped, empty | reached⟩
    · have none := tries.off
      rw [if_pos skipped, means.off, firstMatch_overlooked skipped] at none
      exact none empty
    · exact Nat.lt_irrefl _ (means.patterns _ (tries.behind skipped reached))
  · intro apart
    refine ⟨?_, fun i member => ?_, tries.string⟩
    · rw [tries.off]
      split
      case isTrue skipped =>
        exact ((firstMatch_overlooked skipped).mpr fun empty => apart ⟨skipped, .inl empty⟩).symm
      case isFalse => rfl
    · exact (tries.inside i member).resolve_right fun ⟨_, skipped, reached⟩ =>
        apart ⟨skipped, .inr reached⟩

end Several

/-! ### The three matchers -/

/-- The matchers do what the header says: of one string, exactly for patterns with no asterisk
directly before a question mark; with limits, always as without; of several patterns, unless the
last one is overlooked. -/
theorem simplePattern_means_iff (pattern : CString) (pats : Nat → UInt8) (cchPatterns : Nat)
    (str : Nat → UInt8) (cchString : Nat) :
    ((∀ string : CString, rtStrSimplePatternMatch pattern.1 string.1 = true ↔
        Matches (pattern.1.map token) string.1) ↔
      ¬ [chAsterisk, chQuestion] <:+: pattern.1) ∧
    Answers (rtStrSimplePatternNMatch pats cchPatterns str cchString)
      (rtStrSimplePatternMatch (cut pats cchPatterns 0) (cut str cchString 0))
      cchPatterns cchString ∧
    (MultiMeans pats cchPatterns str cchString ↔
      ¬ (overlooked (cut str cchString 0) (alternatives 0 [] (cut pats cchPatterns 0)) = true ∧
        (cut str cchString 0 = [] ∨ (cut pats cchPatterns 0).length = cchPatterns))) :=
  ⟨match_means_iff pattern, nMatch_agrees pats cchPatterns str cchString,
    multiMeans_iff pats cchPatterns str cchString⟩

/-- The pattern `*?` matches the empty string, and of the patterns `a|` the empty one is not
tried. -/
theorem exists_pattern_wrong :
    (¬ ∀ pattern string : CString, rtStrSimplePatternMatch pattern.1 string.1 = true ↔
        Matches (pattern.1.map token) string.1) ∧
      ¬ ∀ pats cchPatterns str cchString, MultiMeans pats cchPatterns str cchString := by
  constructor
  · intro means
    have here := (means ⟨[chAsterisk, chQuestion], by decide⟩ ⟨[], by decide⟩).mp rfl
    have one := here.width_le
    exact absurd one (by decide)
  · intro means
    have here := (means (fun i => if i = 0 then 0x61 else if i = 1 then chPipe else 0) 2
      (fun _ => 0) 0).off
    exact absurd here (by decide)

end VBox.Runtime.SimplePattern
