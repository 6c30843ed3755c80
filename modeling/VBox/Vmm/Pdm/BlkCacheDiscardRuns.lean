import VBox.Vmm.Pdm.BlkCacheDiscard

/-!
When discarding a range of the block cache is harmless.

A round of `discardPart` drops the entry it finds, stands still where there is none and
uses freed memory where the entry is dirty. A range is therefore gone through exactly
when all its bytes are in clean entries (`discardRange_ok`, `discardRange_total`); the
lookups afterwards are those of before without the entries met (`Dropped`), which decides
the next range.
-/

namespace VBox.Vmm.Pdm.PdmBlkCache

open List Option

variable {s s' : PdmBlkCache} {off cb cb' fuel p q : Nat} {pEntry qEntry : PdmBlkCacheEntry}
  {r : RtRange} {paRanges : List RtRange}

section Lookup

theorem at_of_lookup (found : s.pdmBlkCacheGetCacheEntryByOffset off = some (p, pEntry)) :
    s.At off p pEntry := by
  obtain ⟨q, member, found⟩ := exists_of_findSome?_eq_some found
  cases here : s.mem q with
  | none => simp [here] at found
  | some qEntry =>
    simp only [here, bind_some, ite_none_right_eq_some, some.injEq, Prod.mk.injEq] at found
    obtain ⟨covers, rfl, rfl⟩ := found
    exact ⟨member, here, covers⟩

theorem not_at_of_lookup (missing : s.pdmBlkCacheGetCacheEntryByOffset off = none) :
    ¬ s.At off p pEntry := by
  intro held
  have := findSome?_eq_none_iff.mp missing p held.1
  simp [held.2.1, held.2.2] at this

theorem lookup_iff (apart : s.Apart) :
    s.pdmBlkCacheGetCacheEntryByOffset off = some (p, pEntry) ↔ s.At off p pEntry := by
  refine ⟨at_of_lookup, fun held => ?_⟩
  cases found : s.pdmBlkCacheGetCacheEntryByOffset off with
  | none => exact absurd held (not_at_of_lookup found)
  | some other =>
    obtain ⟨q, qEntry⟩ := other
    have heldQ := at_of_lookup found
    obtain rfl := apart off p q pEntry qEntry held heldQ
    rw [some.inj (held.2.1.symm.trans heldQ.2.1)]

/-- A byte reads as the entry over it has it. -/
theorem byteAt_of_at (apart : s.Apart) (held : s.At off p pEntry) : s.byteAt off =
      if pEntry.pList.hasData then pEntry.pbData (off - pEntry.key) else s.medium off := by
  rw [byteAt, (lookup_iff apart).mpr held]

theorem byteAt_of_missing (missing : s.pdmBlkCacheGetCacheEntryByOffset off = none) :
    s.byteAt off = s.medium off := by
  rw [byteAt, missing]

end Lookup

section Remove

theorem at_removeEntry {x : Nat} :
    (s.removeEntry p pEntry).At x q qEntry ↔ s.At x q qEntry ∧ q ≠ p := by
  simp only [At, removeEntry, mem_filter, decide_eq_true_eq, Function.update_apply]
  constructor
  · rintro ⟨⟨member, other⟩, here, covers⟩
    rw [if_neg other] at here
    exact ⟨⟨member, here, covers⟩, other⟩
  · rintro ⟨⟨member, here, covers⟩, other⟩
    exact ⟨⟨member, other⟩, by rwa [if_neg other], covers⟩

/-- Dropping a clean entry keeps the invariant. -/
theorem Quiet.removeEntry (quiet : s.Quiet) (here : s.mem p = some pEntry)
    (clean : pEntry.isDirty = false) : (s.removeEntry p pEntry).Quiet := by
  have mem_tree : ∀ q, q ∈ (s.removeEntry p pEntry).pTree ↔ q ∈ s.pTree ∧ q ≠ p := by
    simp [PdmBlkCache.removeEntry]
  have mem_of_ne : ∀ q, q ≠ p → (s.removeEntry p pEntry).mem q = s.mem q := fun q other =>
    Function.update_of_ne other _ _
  refine ⟨?_, ?_, ?_, ?_, ?_⟩
  · intro x q q' qEntry qEntry' first second
    exact quiet.apart x q q' qEntry qEntry' (at_removeEntry.mp first).1 (at_removeEntry.mp second).1
  · intro q member qEntry found
    obtain ⟨member, other⟩ := (mem_tree q).mp member
    exact quiet.idle q member qEntry ((mem_of_ne q other).symm.trans found)
  · intro x q qEntry held
    exact quiet.clean x q qEntry (at_removeEntry.mp held).1
  · intro q
    refine (quiet.dirty q).trans ⟨?_, ?_⟩
    · rintro ⟨member, qEntry, found, dirty⟩
      have other : q ≠ p := by
        rintro rfl
        rw [some.inj (found.symm.trans here), clean] at dirty
        cases dirty
      exact ⟨(mem_tree q).mpr ⟨member, other⟩, qEntry, (mem_of_ne q other).trans found, dirty⟩
    · rintro ⟨member, qEntry, found, dirty⟩
      obtain ⟨member, other⟩ := (mem_tree q).mp member
      exact ⟨member, qEntry, (mem_of_ne q other).symm.trans found, dirty⟩
  · intro q member qEntry found
    obtain ⟨member, other⟩ := (mem_tree q).mp member
    exact quiet.data q member qEntry ((mem_of_ne q other).symm.trans found)

end Remove

section Part

theorem discardPart_uncovered (missing : s.pdmBlkCacheGetCacheEntryByOffset off = none) :
    s.discardPart off cb = .ok (s, 0) := by
  rw [discardPart, missing]

/-- The entry is released after it has been freed. -/
theorem discardPart_dirty (quiet : s.Quiet)
    (found : s.pdmBlkCacheGetCacheEntryByOffset off = some (p, pEntry))
    (dirty : pEntry.isDirty = true) : s.discardPart off cb = .error .usedFreed := by
  have held := at_of_lookup found
  have data := quiet.data p held.1 pEntry held.2.1 dirty
  have idle := quiet.idle p held.1 pEntry held.2.1
  have freed : (s.removeEntry p pEntry).pdmBlkCacheEntryRelease p = .error .usedFreed := by
    simp [pdmBlkCacheEntryRelease, removeEntry]
  simp only [discardPart, found, data, dirty, idle, if_true, Bool.false_eq_true, if_false,
    freed, Except.map]

theorem discardPart_clean (quiet : s.Quiet)
    (found : s.pdmBlkCacheGetCacheEntryByOffset off = some (p, pEntry))
    (clean : pEntry.isDirty = false) : s.discardPart off cb =
      .ok (s.removeEntry p pEntry, min (pEntry.cbData - (off - pEntry.key)) cb) := by
  have held := at_of_lookup found
  have idle := quiet.idle p held.1 pEntry held.2.1
  simp only [discardPart, found, clean, idle, Bool.false_eq_true, if_false, ite_self]

end Part

section Range

/-- Every byte is in a clean entry. -/
def Ready (s : PdmBlkCache) (off cb : Nat) : Prop :=
  ∀ x, off ≤ x → x < off + cb →
    ∃ p pEntry, s.pdmBlkCacheGetCacheEntryByOffset x = some (p, pEntry) ∧
      pEntry.isDirty = false

/-- The entries over some bytes are gone, the rest is found as before. -/
structure Dropped (s s' : PdmBlkCache) (gone : Nat → Prop) : Prop where
  quiet : s'.Quiet
  medium : s'.medium = s.medium
  suspended : s'.fSuspended = s.fSuspended
  lookup : ∀ x p pEntry, s'.pdmBlkCacheGetCacheEntryByOffset x = some (p, pEntry) ↔
    s.pdmBlkCacheGetCacheEntryByOffset x = some (p, pEntry) ∧
      ∀ y, gone y → s.pdmBlkCacheGetCacheEntryByOffset y ≠ some (p, pEntry)

theorem Dropped.same (quiet : s.Quiet) {gone : Nat → Prop} (empty : ∀ x, ¬ gone x) :
    Dropped s s gone :=
  ⟨quiet, rfl, rfl, fun _ _ _ => ⟨fun found => ⟨found, fun y goneY => absurd goneY (empty y)⟩,
    fun both => both.1⟩⟩

/-- Two times of dropping, where the second meets no entry that is gone. -/
theorem Dropped.trans {t : PdmBlkCache} {gone later both : Nat → Prop} (first : Dropped s s' gone)
    (second : Dropped s' t later) (either : ∀ x, both x ↔ gone x ∨ later x) : Dropped s t both := by
  refine ⟨second.quiet, second.medium.trans first.medium,
    second.suspended.trans first.suspended, fun x p pEntry => ?_⟩
  rw [second.lookup, first.lookup]
  constructor
  · rintro ⟨⟨found, notFirst⟩, notSecond⟩
    refine ⟨found, fun y gone here => ?_⟩
    rcases (either y).mp gone with gone | later
    · exact notFirst y gone here
    · exact notSecond y later ((first.lookup y p pEntry).mpr ⟨here, notFirst⟩)
  · rintro ⟨found, kept⟩
    exact ⟨⟨found, fun y gone => kept y ((either y).mpr (.inl gone))⟩, fun y later here =>
      kept y ((either y).mpr (.inr later)) ((first.lookup y p pEntry).mp here).1⟩

/-- One round on a clean entry: the bytes of the range up to the end of the entry. -/
theorem Dropped.removeEntry (quiet : s.Quiet)
    (found : s.pdmBlkCacheGetCacheEntryByOffset off = some (p, pEntry))
    (clean : pEntry.isDirty = false) {gone : Nat → Prop} (here : gone off)
    (within : ∀ y, gone y → pEntry.covers y = true) : Dropped s (s.removeEntry p pEntry) gone := by
  have held := at_of_lookup found
  have quiet' := quiet.removeEntry held.2.1 clean
  refine ⟨quiet', rfl, rfl, fun x q qEntry => ?_⟩
  rw [lookup_iff quiet'.apart, at_removeEntry, lookup_iff quiet.apart]
  refine and_congr_right fun heldQ => ⟨fun other y goneY foundY => ?_, fun kept same => ?_⟩
  · have coveredP : s.At y p pEntry := ⟨held.1, held.2.1, within y goneY⟩
    exact other (quiet.apart y q p qEntry pEntry (at_of_lookup foundY) coveredP)
  · subst same
    rw [some.inj (heldQ.2.1.symm.trans held.2.1)] at kept
    exact kept off here found

theorem covers_iff : pEntry.covers off = true ↔
    pEntry.key ≤ off ∧ off < pEntry.key + pEntry.cbData := by
  simp [PdmBlkCacheEntry.covers]

theorem discardRange_step (fuel : Nat) (quiet : s.Quiet)
    (found : s.pdmBlkCacheGetCacheEntryByOffset off = some (p, pEntry))
    (clean : pEntry.isDirty = false) (pos : 0 < cb)
    (cut : cb' = min (pEntry.cbData - (off - pEntry.key)) cb) : discardRange (fuel + 1) s off cb =
      discardRange fuel (s.removeEntry p pEntry) (off + cb') (cb - cb') ∧ 0 < cb' ∧ cb' ≤ cb ∧
    Dropped s (s.removeEntry p pEntry) (fun y => off ≤ y ∧ y < off + cb') ∧
    (∀ y, off + cb' ≤ y → y < off + cb → pEntry.covers y = false) := by
  have covers := covers_iff.mp (at_of_lookup found).2.2
  have posPart : 0 < cb' := by omega
  refine ⟨?_, posPart, by omega, Dropped.removeEntry quiet found clean ?_ ?_, ?_⟩
  · obtain ⟨cb, rfl⟩ := Nat.exists_eq_add_one.mpr pos
    rw [discardRange, discardPart_clean quiet found clean, ← cut]
  · exact ⟨le_rfl, by omega⟩
  · rintro y ⟨above, below⟩
    exact covers_iff.mpr ⟨by omega, by omega⟩
  · intro y above below
    rw [← Bool.not_eq_true, covers_iff]
    omega

/-- A range that is gone through was ready, and is dropped. -/
theorem discardRange_ok (quiet : s.Quiet) (done : discardRange fuel s off cb = .ok s') :
    s.Ready off cb ∧ Dropped s s' fun y => off ≤ y ∧ y < off + cb := by
  induction fuel generalizing s off cb with
  | zero =>
    cases cb with
    | zero =>
      obtain rfl := Except.ok.inj done
      exact ⟨fun x _ _ => by omega, .same quiet fun x => by omega⟩
    | succ cb => cases done
  | succ fuel ih =>
    rcases Nat.eq_zero_or_pos cb with rfl | pos
    · obtain rfl := Except.ok.inj done
      exact ⟨fun x _ _ => by omega, .same quiet fun x => by omega⟩
    cases found : s.pdmBlkCacheGetCacheEntryByOffset off with
    | none =>
      -- the loop stands still, which the induction has excluded
      obtain ⟨cb, rfl⟩ := Nat.exists_eq_add_one.mpr pos
      rw [discardRange, discardPart_uncovered found] at done
      obtain ⟨ready, -⟩ := ih quiet done
      obtain ⟨q, qEntry, foundQ, -⟩ := ready off le_rfl (by omega)
      rw [found] at foundQ
      cases foundQ
    | some entry =>
      obtain ⟨p, pEntry⟩ := entry
      cases clean : pEntry.isDirty with
      | true =>
        obtain ⟨cb, rfl⟩ := Nat.exists_eq_add_one.mpr pos
        rw [discardRange, discardPart_dirty quiet found clean] at done
        cases done
      | false =>
        obtain ⟨step, posPart, short, dropped, -⟩ :=
          discardRange_step fuel quiet found clean pos rfl
        obtain ⟨ready, rest⟩ := ih dropped.quiet (step.symm.trans done)
        refine ⟨fun x above below => ?_, dropped.trans rest fun x => by omega⟩
        by_cases inside : x < off + min (pEntry.cbData - (off - pEntry.key)) cb
        · have held := at_of_lookup found
          have covers := covers_iff.mp held.2.2
          have coversX : pEntry.covers x = true := covers_iff.mpr ⟨by omega, by omega⟩
          exact ⟨p, pEntry, (lookup_iff quiet.apart).mpr ⟨held.1, held.2.1, coversX⟩, clean⟩
        · obtain ⟨q, qEntry, foundQ, cleanQ⟩ := ready x (by omega) (by omega)
          exact ⟨q, qEntry, ((dropped.lookup x q qEntry).mp foundQ).1, cleanQ⟩

/-- A range that is ready is gone through, with one round for a byte. -/
theorem discardRange_total (quiet : s.Quiet) (ready : s.Ready off cb) (enough : cb ≤ fuel) :
    ∃ s', discardRange fuel s off cb = .ok s' := by
  induction fuel generalizing s off cb with
  | zero =>
    obtain rfl := Nat.le_zero.mp enough
    exact ⟨s, rfl⟩
  | succ fuel ih =>
    rcases Nat.eq_zero_or_pos cb with rfl | pos
    · exact ⟨s, rfl⟩
    obtain ⟨p, pEntry, found, clean⟩ := ready off le_rfl (by omega)
    obtain ⟨step, posPart, short, dropped, beyond⟩ :=
      discardRange_step fuel quiet found clean pos rfl
    rw [step]
    refine ih dropped.quiet (fun x above below => ?_) (by omega)
    obtain ⟨q, qEntry, foundQ, cleanQ⟩ := ready x (by omega) (by omega)
    refine ⟨q, qEntry, (dropped.lookup x q qEntry).mpr ⟨foundQ, fun y gone foundY => ?_⟩, cleanQ⟩
    -- an entry over both bytes is the one just dropped, which ends in front of the rest
    have covers := covers_iff.mp (at_of_lookup found).2.2
    have coversY : pEntry.covers y = true := covers_iff.mpr ⟨by omega, by omega⟩
    have held := at_of_lookup found
    have same := quiet.apart y q p qEntry pEntry (at_of_lookup foundY) ⟨held.1, held.2.1, coversY⟩
    subst same
    have heldQ := at_of_lookup foundQ
    obtain rfl := some.inj (held.2.1.symm.trans heldQ.2.1)
    have coversX := heldQ.2.2
    rw [beyond x above (by omega)] at coversX
    cases coversX

end Range

section Ranges

/-- The bytes of the ranges. -/
def InRanges (paRanges : List RtRange) (off : Nat) : Prop := ∃ r ∈ paRanges, r.Has off

theorem discardRanges_ok (quiet : s.Quiet) (done : discardRanges fuel s paRanges = .ok s') :
    s.Discardable paRanges ∧ Dropped s s' (InRanges paRanges) := by
  induction paRanges generalizing s with
  | nil =>
    obtain rfl := Except.ok.inj done
    exact ⟨⟨by simp, .nil⟩, .same quiet (by simp [InRanges])⟩
  | cons r paRanges ih =>
    rw [discardRanges] at done
    cases first : discardRange fuel s r.offStart r.cbRange with
    | error e =>
      rw [first] at done
      cases done
    | ok t =>
      rw [first] at done
      obtain ⟨ready, dropped⟩ := discardRange_ok quiet first
      obtain ⟨discardable, rest⟩ := ih dropped.quiet done
      refine ⟨⟨?_, ?_⟩, dropped.trans rest fun x => ?_⟩
      · intro a member x has
        rcases mem_cons.mp member with rfl | member
        · exact ready x has.1 has.2
        · obtain ⟨p, pEntry, found, clean⟩ := discardable.covered a member x has
          exact ⟨p, pEntry, ((dropped.lookup x p pEntry).mp found).1, clean⟩
      · refine pairwise_cons.mpr ⟨fun a member x y hasX hasY same => ?_, ?_⟩
        · obtain ⟨p, pEntry, found, -⟩ := discardable.covered a member y hasY
          obtain ⟨foundY, kept⟩ := (dropped.lookup y p pEntry).mp found
          exact kept x hasX (same.trans foundY)
        · refine discardable.once.imp_of_mem fun {a b} memberA memberB apart x y hasX hasY
            same => apart x y hasX hasY ?_
          obtain ⟨p, pEntry, foundX, -⟩ := discardable.covered a memberA x hasX
          obtain ⟨q, qEntry, foundY, -⟩ := discardable.covered b memberB y hasY
          rw [foundX, foundY, ← ((dropped.lookup x p pEntry).mp foundX).1,
            ← ((dropped.lookup y q qEntry).mp foundY).1, same]
      · simp only [InRanges, mem_cons, exists_eq_or_imp]
        rfl

theorem discardRanges_total (quiet : s.Quiet) (discardable : s.Discardable paRanges)
    (enough : ∀ r ∈ paRanges, r.cbRange ≤ fuel) : ∃ s', discardRanges fuel s paRanges = .ok s' := by
  induction paRanges generalizing s with
  | nil => exact ⟨s, rfl⟩
  | cons r paRanges ih =>
    have ready : s.Ready r.offStart r.cbRange := fun x above below =>
      discardable.covered r mem_cons_self x ⟨above, below⟩
    obtain ⟨t, first⟩ := discardRange_total quiet ready (enough r mem_cons_self)
    obtain ⟨-, dropped⟩ := discardRange_ok quiet first
    obtain ⟨notAgain, once⟩ := pairwise_cons.mp discardable.once
    have still : ∀ a ∈ paRanges, ∀ x, a.Has x →
        t.pdmBlkCacheGetCacheEntryByOffset x = s.pdmBlkCacheGetCacheEntryByOffset x := by
      intro a member x has
      obtain ⟨p, pEntry, found, -⟩ := discardable.covered a (mem_cons_of_mem _ member) x has
      rw [found]
      exact (dropped.lookup x p pEntry).mpr
        ⟨found, fun y gone foundY => notAgain a member y x gone has (foundY.trans found.symm)⟩
    rw [discardRanges, first]
    refine ih dropped.quiet ⟨fun a member x has => ?_, ?_⟩ fun a member =>
      enough a (mem_cons_of_mem _ member)
    · rw [still a member x has]
      exact discardable.covered a (mem_cons_of_mem _ member) x has
    · refine once.imp_of_mem fun {a b} memberA memberB apart x y hasX hasY => ?_
      rw [still a memberA x hasX, still b memberB y hasY]
      exact apart x y hasX hasY

/-- What is dropped is on the medium. -/
theorem Dropped.sameOutside (quiet : s.Quiet) (discardable : s.Discardable paRanges)
    (dropped : Dropped s s' (InRanges paRanges)) (off : Nat) : s'.byteAt off = s.byteAt off := by
  cases found : s.pdmBlkCacheGetCacheEntryByOffset off with
  | none =>
    have missing : s'.pdmBlkCacheGetCacheEntryByOffset off = none := by
      refine eq_none_iff_forall_ne_some.mpr fun entry foundE => ?_
      rw [((dropped.lookup off entry.1 entry.2).mp foundE).1] at found
      cases found
    rw [byteAt_of_missing found, byteAt_of_missing missing, dropped.medium]
  | some entry =>
    obtain ⟨p, pEntry⟩ := entry
    by_cases gone : ∃ y, InRanges paRanges y ∧
        s.pdmBlkCacheGetCacheEntryByOffset y = some (p, pEntry)
    · obtain ⟨y, ⟨r, member, has⟩, foundY⟩ := gone
      have clean : pEntry.isDirty = false := by
        obtain ⟨q, qEntry, foundQ, clean⟩ := discardable.covered r member y has
        obtain ⟨rfl, rfl⟩ := Prod.mk.inj (some.inj (foundQ.symm.trans foundY))
        exact clean
      have missing : s'.pdmBlkCacheGetCacheEntryByOffset off = none := by
        refine eq_none_iff_forall_ne_some.mpr fun entry foundE => ?_
        obtain ⟨foundS, kept⟩ := (dropped.lookup off entry.1 entry.2).mp foundE
        rw [foundS] at found
        exact kept y ⟨r, member, has⟩ (foundY.trans found.symm)
      have held := at_of_lookup found
      rw [byteAt_of_missing missing, byteAt_of_at quiet.apart held, dropped.medium]
      split
      case isTrue data => exact (quiet.clean off p pEntry held data clean).symm
      case isFalse => rfl
    · have kept := (dropped.lookup off p pEntry).mpr
        ⟨found, fun y inRanges foundY => gone ⟨y, inRanges, foundY⟩⟩
      rw [byteAt, byteAt, kept, found, dropped.medium]

/-- No entry is left over a byte of the ranges. -/
theorem Dropped.gone (dropped : Dropped s s' (InRanges paRanges)) (member : r ∈ paRanges)
    (has : r.Has off) : ¬ s'.At off p pEntry := by
  intro held
  obtain ⟨found, kept⟩ := (dropped.lookup off p pEntry).mp
    ((lookup_iff dropped.quiet.apart).mpr held)
  exact kept off ⟨r, member, has⟩ found

end Ranges

section Commit

theorem at_writtenBack (here : s.mem p = some pEntry) {x : Nat} :
    (s.writtenBack p pEntry).At x q qEntry ↔
      ∃ old, s.At x q old ∧ qEntry = if q = p then { old with isDirty := false } else old := by
  simp only [At, writtenBack, Function.update_apply]
  by_cases same : q = p
  · subst same
    simp only [if_true, some.injEq]
    constructor
    · rintro ⟨member, rfl, covers⟩
      exact ⟨pEntry, ⟨member, here, covers⟩, rfl⟩
    · rintro ⟨old, ⟨member, found, covers⟩, rfl⟩
      obtain rfl := some.inj (here.symm.trans found)
      exact ⟨member, rfl, covers⟩
  · simp only [if_neg same]
    exact ⟨fun held => ⟨qEntry, held, rfl⟩, by rintro ⟨old, held, rfl⟩; exact held⟩

/-- Writing an entry with data to the medium changes no byte that is read. -/
theorem byteAt_writtenBack (apart : s.Apart) (member : p ∈ s.pTree)
    (here : s.mem p = some pEntry) (data : pEntry.pList.hasData = true) :
    (s.writtenBack p pEntry).Apart ∧ ∀ off, (s.writtenBack p pEntry).byteAt off = s.byteAt off := by
  have apart' : (s.writtenBack p pEntry).Apart := by
    intro x q q' qEntry qEntry' first second
    obtain ⟨old, first, -⟩ := (at_writtenBack here).mp first
    obtain ⟨old', second, -⟩ := (at_writtenBack here).mp second
    exact apart x q q' old old' first second
  refine ⟨apart', fun off => ?_⟩
  cases found : s.pdmBlkCacheGetCacheEntryByOffset off with
  | none =>
    have missing : (s.writtenBack p pEntry).pdmBlkCacheGetCacheEntryByOffset off = none := by
      refine eq_none_iff_forall_ne_some.mpr fun entry foundE => ?_
      obtain ⟨old, held, -⟩ := (at_writtenBack here).mp (at_of_lookup foundE)
      exact not_at_of_lookup found held
    have outside : pEntry.covers off = false := by
      by_contra covers
      exact not_at_of_lookup found ⟨member, here, by simpa using covers⟩
    rw [byteAt_of_missing found, byteAt_of_missing missing]
    simp [writtenBack, outside]
  | some entry =>
    obtain ⟨q, qEntry⟩ := entry
    have held := at_of_lookup found
    rw [byteAt_of_at apart held,
      byteAt_of_at apart' ((at_writtenBack here).mpr ⟨qEntry, held, rfl⟩)]
    by_cases same : q = p
    · subst same
      obtain rfl := some.inj (here.symm.trans held.2.1)
      simp [data]
    · have outside : pEntry.covers off = false := by
        by_contra covers
        exact same (apart off q p qEntry pEntry held ⟨member, here, by simpa using covers⟩)
      simp [same, writtenBack, outside]

/-- What is to be committed: entries of the tree with data. -/
def Committable (s : PdmBlkCache) (ps : List Nat) : Prop :=
  ∀ p ∈ ps, p ∈ s.pTree ∧ ∃ pEntry, s.mem p = some pEntry ∧ pEntry.pList.hasData = true

theorem commitList_ok {ps : List Nat} (apart : s.Apart) (committable : s.Committable ps) :
    ∃ t, s.commitList ps = .ok t ∧ t.Apart ∧ ∀ off, t.byteAt off = s.byteAt off := by
  induction ps generalizing s with
  | nil => exact ⟨s, rfl, apart, fun _ => rfl⟩
  | cons p ps ih =>
    obtain ⟨member, pEntry, here, data⟩ := committable p mem_cons_self
    obtain ⟨apart', same⟩ := byteAt_writtenBack apart member here data
    have still : (s.writtenBack p pEntry).Committable ps := by
      intro q memberQ
      obtain ⟨inTree, qEntry, foundQ, dataQ⟩ := committable q (mem_cons_of_mem _ memberQ)
      refine ⟨inTree, ?_⟩
      by_cases eq : q = p
      · exact ⟨{ pEntry with isDirty := false }, by simp [writtenBack, eq], data⟩
      · exact ⟨qEntry, by simpa [writtenBack, eq] using foundQ, dataQ⟩
    obtain ⟨t, done, apartT, sameT⟩ := ih apart' still
    refine ⟨t, ?_, apartT, fun off => (sameT off).trans (same off)⟩
    rw [commitList, pdmBlkCacheEntryCommit, here]
    exact done

/-- A full commit changes no byte that is read. -/
theorem pdmBlkCacheCommit_ok (quiet : s.Quiet) :
    ∃ t, s.pdmBlkCacheCommit = .ok t ∧ ∀ off, t.byteAt off = s.byteAt off := by
  by_cases suspended : s.fSuspended
  · exact ⟨s, by rw [pdmBlkCacheCommit, if_pos suspended], fun _ => rfl⟩
  have committable : s.Committable s.listDirtyNotCommitted := by
    intro p listed
    obtain ⟨member, pEntry, here, dirty⟩ := (quiet.dirty p).mp listed
    exact ⟨member, pEntry, here, quiet.data p member pEntry here dirty⟩
  obtain ⟨t, done, -, same⟩ := commitList_ok quiet.apart committable
  refine ⟨{ t with listDirtyNotCommitted := [] }, ?_, same⟩
  rw [pdmBlkCacheCommit, if_neg suspended, done]
  rfl

end Commit

section Discard

/-- A call with a result has found every byte of its ranges in a clean entry. -/
theorem discardable_of_meets {fReq : Bool} (quiet : s.Quiet)
    (meets : s.DiscardMeets fReq paRanges) :
    s.fSuspended = true ∨ fReq = false ∨ s.Discardable paRanges := by
  obtain ⟨fuel, rc, s', done, -⟩ := meets
  cases suspended : s.fSuspended with
  | true => exact .inl rfl
  | false =>
    cases fReq with
    | false => exact .inr (.inl rfl)
    | true =>
      refine .inr (.inr ?_)
      simp only [pdmR3BlkCacheDiscard, suspended, Bool.false_eq_true, if_false, if_true] at done
      cases ranges : discardRanges fuel s paRanges with
      | error e =>
        rw [ranges] at done
        cases done
      | ok t => exact (discardRanges_ok quiet ranges).1

/-- The call serves its ranges exactly when it is refused or finds every byte of them in a
clean entry when it gets there. -/
theorem pdmR3BlkCacheDiscard_meets_iff (quiet : s.Quiet) (fReq : Bool)
    (paRanges : List RtRange) :
    s.DiscardMeets fReq paRanges ↔
      s.fSuspended = true ∨ fReq = false ∨ s.Discardable paRanges := by
  constructor
  · exact discardable_of_meets quiet
  · intro condition
    obtain ⟨committed, commits, sameC⟩ := pdmBlkCacheCommit_ok quiet
    by_cases suspended : s.fSuspended
    · refine ⟨0, verrInvalidState, s, if_pos suspended, fun ok => ?_, fun _ _ => rfl,
        committed, commits, fun off _ => sameC off⟩
      cases ok
    cases fReq with
    | false =>
      refine ⟨0, verrNoMemory, s, if_neg suspended, fun ok => ?_, fun _ _ => rfl, committed,
        commits, fun off _ => sameC off⟩
      cases ok
    | true =>
      have discardable : s.Discardable paRanges := by
        rcases condition with refused | refused | discardable
        · exact absurd refused suspended
        · cases refused
        · exact discardable
      have enough : ∀ r ∈ paRanges, r.cbRange ≤ 2 ^ 64 := fun r _ =>
        (Nat.le_add_left _ _).trans r.fits
      obtain ⟨t, done⟩ := discardRanges_total quiet discardable enough
      obtain ⟨-, dropped⟩ := discardRanges_ok quiet done
      obtain ⟨committedT, commitsT, sameT⟩ := pdmBlkCacheCommit_ok dropped.quiet
      have same := dropped.sameOutside quiet discardable
      have returns : s.pdmR3BlkCacheDiscard (2 ^ 64) true paRanges =
          .ok (vinfSuccess, t) := by
        rw [pdmR3BlkCacheDiscard, if_neg suspended, if_pos rfl, done]
        rfl
      exact ⟨_, vinfSuccess, t, returns,
        fun _ r member off has p pEntry held => absurd held (dropped.gone member has),
        fun off _ => same off, committedT, commitsT, fun off _ => (sameT off).trans (same off)⟩

/-- An entry over the first 1024 bytes of an empty medium, alone in its cache. -/
def oneEntry (isDirty : Bool) (pbData : Nat → UInt8) : PdmBlkCache where
  fSuspended := false
  mem := fun p => if p = 1 then some ⟨0, 1024, pbData, .lruRecentlyUsedIn, false, isDirty⟩ else none
  pTree := [1]
  lists := fun pList => if pList = .lruRecentlyUsedIn then [1] else []
  listDirtyNotCommitted := if isDirty then [1] else []
  medium := fun _ => 0

def firstBytes (cbRange : Nat) (fits : cbRange ≤ 2 ^ 64) : RtRange :=
  ⟨0, cbRange, by rwa [Nat.zero_add]⟩

theorem oneEntry_quiet (isDirty : Bool) (pbData : Nat → UInt8)
    (clean : isDirty = false → ∀ off, pbData off = 0) : (oneEntry isDirty pbData).Quiet := by
  have only : ∀ off p pEntry, (oneEntry isDirty pbData).At off p pEntry →
      p = 1 ∧ pEntry = ⟨0, 1024, pbData, .lruRecentlyUsedIn, false, isDirty⟩ := by
    rintro off p pEntry ⟨member, here, -⟩
    obtain rfl := mem_singleton.mp member
    exact ⟨rfl, (some.inj here).symm⟩
  refine ⟨?_, ?_, ?_, ?_, ?_⟩
  · intro off p q pEntry qEntry first second
    rw [(only off p pEntry first).1, (only off q qEntry second).1]
  · intro p member pEntry here
    obtain rfl := mem_singleton.mp member
    rw [← some.inj here]
  · intro off p pEntry held _ isClean
    obtain ⟨-, rfl⟩ := only off p pEntry held
    exact clean isClean _
  · intro p
    cases isDirty <;> simp [oneEntry]
  · intro p member pEntry here _
    obtain rfl := mem_singleton.mp member
    rw [← some.inj here]
    rfl

theorem pdmR3BlkCacheDiscard_meets_clean :
    (oneEntry false fun _ => 0).DiscardMeets true [firstBytes 512 (by decide)] := by
  refine (pdmR3BlkCacheDiscard_meets_iff (oneEntry_quiet false _ fun _ _ => rfl) true _).mpr
    (.inr (.inr ⟨fun r member off has => ?_, pairwise_singleton _ _⟩))
  obtain rfl := mem_singleton.mp member
  have below : off < 1024 := by
    have := has.2
    simp only [firstBytes] at this
    omega
  refine ⟨1, _, (lookup_iff (oneEntry_quiet false _ fun _ _ => rfl).apart).mpr
    ⟨mem_singleton_self 1, rfl, ?_⟩, rfl⟩
  simp [PdmBlkCacheEntry.covers, below]

/-- Bytes beyond the only entry are never passed; half a dirty entry is dropped with the
other half, and used after that. -/
theorem pdmR3BlkCacheDiscard_fails :
    ((oneEntry false fun _ => 0).Quiet ∧
      ¬ (oneEntry false fun _ => 0).DiscardMeets true [firstBytes 2048 (by decide)]) ∧
    (oneEntry true fun _ => 1).Quiet ∧
      ¬ (oneEntry true fun _ => 1).DiscardMeets true [firstBytes 512 (by decide)] := by
  have quietClean := oneEntry_quiet false (fun _ => 0) fun _ _ => rfl
  have quietDirty := oneEntry_quiet true (fun _ => 1) fun isClean => by cases isClean
  refine ⟨⟨quietClean, fun meets => ?_⟩, quietDirty, fun meets => ?_⟩
  · rcases discardable_of_meets quietClean meets with refused | refused | discardable
    · cases refused
    · cases refused
    · obtain ⟨p, pEntry, found, -⟩ := discardable.covered _ (mem_singleton_self _) 1024
        ⟨by decide, by decide⟩
      have missing : (oneEntry false fun _ => 0).pdmBlkCacheGetCacheEntryByOffset 1024 = none := by
        simp [pdmBlkCacheGetCacheEntryByOffset, oneEntry, PdmBlkCacheEntry.covers]
      rw [missing] at found
      cases found
  · rcases discardable_of_meets quietDirty meets with refused | refused | discardable
    · cases refused
    · cases refused
    · obtain ⟨p, pEntry, found, clean⟩ := discardable.covered _ (mem_singleton_self _) 0
        ⟨le_rfl, by decide⟩
      obtain ⟨member, here, -⟩ := at_of_lookup found
      obtain rfl := mem_singleton.mp member
      rw [← some.inj here] at clean
      cases clean

end Discard

end VBox.Vmm.Pdm.PdmBlkCache
