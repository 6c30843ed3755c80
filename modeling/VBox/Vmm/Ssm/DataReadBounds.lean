import VBox.Vmm.Ssm.DataRead

/-!
Whatever the stream holds, reading a data unit stays within its buffers and comes to an end.
-/

namespace VBox.Vmm.Ssm

open VBox.Lib VBox.Lib.Fallible List

/-! ### The stream -/

theorem SsmInStrm.copyBufs_size (n : Nat) (cur : List UInt8) (bufs : List (List UInt8)) :
    (copyBufs n cur bufs).1.length ≤ n ∧ (copyBufs n cur bufs).1.length +
      ((copyBufs n cur bufs).2.1.length + ((copyBufs n cur bufs).2.2.map length).sum) =
      cur.length + (bufs.map length).sum := by
  induction bufs generalizing n cur with
  | nil =>
    simp only [copyBufs, length_take, length_drop]
    omega
  | cons buf bufs ih =>
    have rest := ih (n - cur.length) buf
    unfold copyBufs
    split
    · simp only [length_take, length_drop]
      omega
    · simp only [length_append, map_cons, sum_cons]
      omega

/-- The bytes of a read come off the stream. -/
theorem SsmInStrm.read_size (s : SsmInStrm) (n : Nat) :
    (s.read n).1.length ≤ n ∧ (s.read n).1.length + (s.read n).2.size = s.size :=
  copyBufs_size n s.cur s.bufs

/-! ### What every step keeps -/

/-- What holds between the calls. -/
structure SsmRead.Bounded (s : SsmRead) : Prop where
  offDataBuffer : s.offDataBuffer ≤ s.cbDataBuffer
  cbDataBuffer : s.cbDataBuffer ≤ cbData
  asked : ∀ a ∈ s.asked, a.Fits

/-- There are no more than `n` bytes to come, and `r` are left of the record. -/
structure SsmRead.At (n r : Nat) (s : SsmRead) : Prop extends s.Bounded where
  size : s.strm.size ≤ n
  cbRecLeft : s.cbRecLeft = r

/-- How a step fails: not for want of turns. -/
def Fails (e : Stop) (s : SsmRead) : Prop :=
  s.Bounded ∧ ∃ rc, e = .failed rc ∧ rc ≠ .success

def FailsNoted (e : Stop) (s : SsmRead) : Prop :=
  s.Bounded ∧ s.rc ≠ .success ∧ e = .failed s.rc

section

open SsmRead

variable {n r off cb cbOrg : Nat} {α : Type} {P : SsmRead → Prop} {Q : α → SsmRead → Prop}
  {m : ReadM α}

theorem noted_meets (meets : Meets P m Q Fails) : Meets P (noted m) Q FailsNoted := by
  apply meets.noting
  rintro e s ⟨bounded, rc, rfl, bad⟩
  exact ⟨⟨bounded.1, bounded.2, bounded.3⟩, bad, rfl⟩

variable {c : Prop}

section

variable [Decidable c] {rc : SsmRc} (bad : rc ≠ .success)

include bad

theorem check_meets : Meets (At n r) (check c rc) (fun _ s => c ∧ At n r s) Fails :=
  .ite (fun yes => .pure fun _ at' => ⟨yes, at'⟩) fun _ => .fail fun _ at' => ⟨at'.1, rc, rfl, bad⟩

/-- Go on behind a check. -/
theorem check_bind (rest : c → Meets (At n r) m Q Fails) :
    Meets (At n r) (check c rc >>= fun _ => m) Q Fails :=
  (check_meets bad).bind fun _ => .given rest

theorem noted_check_bind (rest : c → Meets (At n r) m Q FailsNoted) :
    Meets (At n r) (noted (check c rc) >>= fun _ => m) Q FailsNoted :=
  (noted_meets (check_meets bad)).bind fun _ => .given rest

end

variable {E : Stop → SsmRead → Prop}

/-- Look at the handle for what is left of the record. -/
theorem get_meets {f : SsmRead → ReadM α} (rest : ∀ s, At n r s → Meets (At n r) (f s) Q E) :
    Meets (At n r) (get >>= f) Q E := by
  apply Meets.get_bind
  intro s at'
  apply (rest s at').weaken
  · rintro s' rfl
    exact at'
  · exact fun _ _ after => after

theorem ask_meets {a : Ask} (fits : a.Fits) {E : Stop → SsmRead → Prop} :
    Meets (At n r) (ask a) (fun _ => At n r) E := by
  apply Meets.modify
  intro s at'
  refine ⟨⟨at'.1.1, at'.1.2, ?_⟩, at'.size, at'.cbRecLeft⟩
  intro b mem
  rcases mem_cons.1 mem with rfl | mem
  · exact fits
  · exact at'.asked b mem

variable {dest : Dest}

theorem askWrite_meets (fits : off + cb ≤ dest.size) {E : Stop → SsmRead → Prop} :
    Meets (At n r) (ask (.write dest off cb)) (fun _ => At n r) E :=
  ask_meets (show (Ask.write dest off cb).Fits from fits)

variable {b : Nat}

theorem askSub_meets {a : Nat} (le : b ≤ a) {E : Stop → SsmRead → Prop} :
    Meets (At n r) (ask (.sub a b)) (fun _ => At n r) E :=
  ask_meets (show (Ask.sub a b).Fits from le)

theorem setData_meets {cbDataBuffer offDataBuffer : Nat} (le : offDataBuffer ≤ cbDataBuffer)
    (small : cbDataBuffer ≤ cbData) {E : Stop → SsmRead → Prop} :
    Meets (At n r) (setData cbDataBuffer offDataBuffer) (fun _ => At n r) E :=
  .modify fun _ at' => ⟨⟨le, small, at'.asked⟩, at'.size, at'.cbRecLeft⟩

theorem fill_meets {bytes : List UInt8} : Meets (At n r) (fill bytes) (fun _ => At n r) E :=
  .modify fun _ at' => ⟨⟨at'.1.1, at'.1.2, at'.asked⟩, at'.size, at'.cbRecLeft⟩

theorem userMore_meets : Meets (At n r) (userMore cb) (fun _ => At n r) E :=
  .modify fun _ at' => ⟨⟨at'.1.1, at'.1.2, at'.asked⟩, at'.size, at'.cbRecLeft⟩

theorem recLess_meets (le : cb ≤ r) {E : Stop → SsmRead → Prop} :
    Meets (At n r) (recLess cb) (fun _ => At n ((r + 2 ^ 32 - cb) % 2 ^ 32)) E := by
  apply Meets.modify
  rintro s ⟨⟨off, data, asked⟩, size, rfl⟩
  refine ⟨⟨off, data, ?_⟩, size, rfl⟩
  intro b mem
  rcases mem_cons.1 mem with rfl | mem
  · exact le
  · exact asked b mem

/-- A read that fits gets what it asks for, or fails. -/
theorem dataReadV2Raw_meets (fits : off + cb ≤ dest.size) :
    Meets (At n r) (dataReadV2Raw dest off cb)
      (fun bytes s => bytes.length = cb ∧ cb ≤ n ∧ At (n - cb) r s) Fails := by
  apply (askWrite_meets fits).bind
  intro _
  apply Meets.get_bind
  intro s at'
  have size := s.strm.read_size cb
  have few := at'.size
  simp only
  generalize s.strm.read cb = taken at size ⊢
  obtain ⟨bytes, strm⟩ := taken
  simp only at size ⊢
  apply Meets.ite
  · intro all
    apply Meets.bind (Q := fun _ s' => At (n - cb) r s') (.modify ?_)
    · exact fun _ => .pure fun s' at'' => ⟨all, by omega, at''⟩
    · rintro s' rfl
      exact ⟨⟨at'.1.1, at'.1.2, at'.asked⟩, by simp only; omega, at'.cbRecLeft⟩
  · intro _
    apply Meets.bind (Q := fun _ s' => s'.Bounded) (.modify ?_)
    · refine fun _ => .fail fun s' bounded => ⟨bounded, endRc s, rfl, ?_⟩
      unfold endRc
      split
      · exact SsmRc.noConfusion
      · split <;> exact SsmRc.noConfusion
      · exact SsmRc.noConfusion
    · rintro s' rfl
      exact ⟨at'.1.1, at'.1.2, at'.asked⟩

theorem dataReadV2RawLzfHdr_meets : Meets (At n r) dataReadV2RawLzfHdr
    (fun cb s => cb ≤ cbData ∧ 1 ≤ n ∧ ∃ r', r' ≤ cb ∧ At (n - 1) r' s) FailsNoted := by
  apply get_meets
  intro s at'
  apply noted_check_bind SsmRc.noConfusion
  rintro ⟨more, -⟩
  rw [at'.cbRecLeft] at more
  apply (noted_meets (dataReadV2Raw_meets (by decide))).bind
  refine fun cKB => .given fun _ => .given fun some => ?_
  apply (recLess_meets (Nat.le_of_lt more)).bind
  intro _
  apply get_meets
  intro s' left
  apply noted_check_bind SsmRc.noConfusion
  rintro ⟨within, small⟩
  rw [left.cbRecLeft] at within
  exact .pure fun s' at' => ⟨small, some, _, within, at'⟩

theorem dataReadCompr_meets (small : r ≤ cbData) : Meets (At n 0) (dataReadCompr r)
    (fun _ => At n 0) FailsNoted := by
  apply Meets.get_bind
  intro s at'
  split
  · rename_i bytes strm eq
    unfold SsmInStrm.readDirect at eq
    split at eq
    · have size := s.strm.read_size r
      have few := at'.size
      rw [Option.some.inj eq] at size
      apply Meets.bind (Q := fun _ => At n 0)
      · apply Meets.modify
        rintro s' rfl
        exact ⟨⟨at'.1.1, at'.1.2, at'.asked⟩, by simp only at size ⊢; omega, at'.cbRecLeft⟩
      · exact fun _ => .pure fun _ at'' => at''
    · cases eq
  · apply (noted_meets (dataReadV2Raw_meets ((Nat.zero_add r).symm ▸ small))).weaken
    · rintro s' rfl
      exact at'
    · rintro _ s' ⟨-, le, at''⟩
      exact ⟨at''.1, at''.size.trans (Nat.sub_le n r), at''.cbRecLeft⟩

theorem dataReadV2RawZeroHdr_meets : Meets (At n r) dataReadV2RawZeroHdr
    (fun cb s => cb ≤ cbData ∧ 1 ≤ n ∧ At (n - 1) 0 s) FailsNoted := by
  apply get_meets
  intro s at'
  apply noted_check_bind SsmRc.noConfusion
  intro _
  apply (noted_meets (dataReadV2Raw_meets (by decide))).bind
  refine fun cKB => .given fun _ => .given fun some => ?_
  apply Meets.bind (Q := fun _ => At (n - 1) 0)
  · exact .modify fun s' at'' => ⟨⟨at''.1.1, at''.1.2, at''.asked⟩, at''.size, rfl⟩
  · intro _
    apply noted_check_bind SsmRc.noConfusion
    exact fun small => .pure fun s' at'' => ⟨small, some, at''⟩

variable (decompress : List UInt8 → Nat → Option (List UInt8))

/-- A record that is decompressed takes the rest of it off the stream. -/
theorem dataReadV2RawLzf_meets (small : r ≤ cbData) (fits : off + cb ≤ dest.size) :
    Meets (At n r) (dataReadV2RawLzf decompress dest off cb)
      (fun bytes s => bytes.length = cb ∧ At n 0 s) FailsNoted := by
  apply get_meets
  intro s at'
  rw [at'.cbRecLeft]
  apply Meets.bind (Q := fun _ => At n 0)
  · exact .modify fun s' at'' => ⟨⟨at''.1.1, at''.1.2, at''.asked⟩, at''.size, rfl⟩
  · intro _
    apply (dataReadCompr_meets small).bind
    intro pb
    apply (askWrite_meets fits).bind
    intro _
    apply noted_check_bind SsmRc.noConfusion
    exact fun right => .pure fun s' at'' => ⟨right.2, at''⟩

/-! ### Record headers -/

theorem dataReadTermRec_meets (hdr : List UInt8) :
    Meets (At n r) (dataReadTermRec hdr) (fun _ => At n 0) Fails := by
  apply Meets.bind (Q := fun _ => At n 0)
  · exact .modify fun s at' => ⟨⟨at'.1.1, at'.1.2, at'.asked⟩, at'.size, rfl⟩
  · intro _
    refine check_bind SsmRc.noConfusion fun _ => ?_
    refine check_bind SsmRc.noConfusion fun _ => ?_
    apply get_meets
    intro s _
    apply (dataReadV2Raw_meets (by decide)).bind
    refine fun bytes => .given fun _ => .given fun _ => ?_
    apply get_meets
    intro s' _
    refine check_bind SsmRc.noConfusion fun _ => ?_
    refine check_bind SsmRc.noConfusion fun _ => ?_
    refine check_bind SsmRc.noConfusion fun _ => ?_
    apply (check_meets SsmRc.noConfusion).weaken fun _ before => before
    rintro _ s'' ⟨-, at'⟩
    exact ⟨at'.1, at'.size.trans (Nat.sub_le n 14), at'.cbRecLeft⟩

theorem cbOfSize_le (eq : cbOfSize b = some cb) : cb - 1 ≤ 5 := by
  unfold cbOfSize at eq
  repeat' split at eq
  all_goals cases eq <;> decide

theorem dataReadSize_meets (b : Nat) :
    Meets (At n r) (dataReadSize b) (fun _ s => ∃ r', At n r' s) Fails := by
  unfold dataReadSize
  split
  · exact .fail fun s at' => ⟨at'.1, _, rfl, SsmRc.noConfusion⟩
  · rename_i cb eq
    have few := cbOfSize_le eq
    apply (dataReadV2Raw_meets (show 2 + (cb - 1) ≤ 8 by omega)).bind
    refine fun rest => .given fun _ => .given fun _ => ?_
    refine check_bind SsmRc.noConfusion fun _ => ?_
    refine check_bind SsmRc.noConfusion fun _ => .modify fun s at' => ?_
    exact ⟨_, ⟨at'.1.1, at'.1.2, at'.asked⟩, at'.size.trans (Nat.sub_le n _), rfl⟩

/-- A record header takes two bytes at least. -/
theorem dataReadRecHdrV2_meets : Meets (At n r) dataReadRecHdrV2
    (fun _ s => 2 ≤ n ∧ ∃ r', At (n - 2) r' s) Fails := by
  apply get_meets
  intro s _
  refine check_bind SsmRc.noConfusion fun _ => ?_
  apply (dataReadV2Raw_meets (by decide)).bind
  refine fun hdr => .given fun _ => .given fun some => ?_
  apply Meets.bind (Q := fun _ => At (n - 2) r)
  · exact .modify fun s at' => ⟨⟨at'.1.1, at'.1.2, at'.asked⟩, at'.size, at'.cbRecLeft⟩
  · intro _
    refine check_bind SsmRc.noConfusion fun _ => .ite (fun _ => ?_) fun _ => .ite (fun _ => ?_) fun _ => ?_
    · exact (dataReadTermRec_meets hdr).weaken (fun _ at' => at') fun _ s at' => ⟨some, 0, at'⟩
    · exact .modify fun s at' => ⟨some, _, ⟨at'.1.1, at'.1.2, at'.asked⟩, at'.size, rfl⟩
    · exact (dataReadSize_meets _).weaken (fun _ at' => at') fun _ s left => ⟨some, left⟩

/-- In front of a record with data there may be a header. -/
theorem dataReadRec_meets : Meets (At n r) dataReadRec
    (fun _ s => ∃ n' r', n' ≤ n ∧ (n' + 2 ≤ n ∨ r' ≠ 0) ∧ At n' r' s) FailsNoted := by
  apply get_meets
  intro s at'
  rw [at'.cbRecLeft]
  apply Meets.bind (Q := fun _ s => ∃ n' r', n' ≤ n ∧ (n' + 2 ≤ n ∨ r' ≠ 0) ∧ At n' r' s)
  · refine .ite (fun _ => ?_) fun more => ?_
    · apply (noted_meets dataReadRecHdrV2_meets).weaken fun _ at' => at'
      rintro _ s' ⟨some, r', at''⟩
      exact ⟨n - 2, r', Nat.sub_le n 2, .inl (by omega), at''⟩
    · exact .pure fun s' at'' => ⟨n, r, le_refl n, .inr more, at''⟩
  · intro _
    constructor
    rintro s' ⟨n', r', le, progress, at''⟩
    revert s'
    refine (get_meets ?_).ends
    intro s' _
    apply (noted_meets (check_meets SsmRc.noConfusion)).weaken fun _ at' => at'
    exact fun _ s'' left => ⟨n', r', le, progress, left.2⟩

/-! ### The two loops -/

/-- What a turn does with `off` bytes in the caller's buffer. -/
def Turns (cbOrg : Nat) (turn : Nat → ReadM (List UInt8)) : Prop :=
  ∀ off n r, off < cbOrg → Meets (At n r) (turn off)
    (fun bytes s => off + bytes.length ≤ cbOrg ∧
      ∃ n' r', (n' ≤ n ∧ (r ≠ 0 → n' + 1 ≤ n)) ∧ At n' r' s) FailsNoted

theorem dataReadLoop_meets {turn : Nat → ReadM (List UInt8)} (turns : Turns cbOrg turn)
    {fuel : Nat} {out : List UInt8} (enough : n < fuel) (room : out.length < cbOrg) :
    Meets (At n r) (dataReadLoop turn cbOrg fuel out)
      (fun bytes s => bytes.length = cbOrg ∧ ∃ n' r', n' ≤ n ∧ At n' r' s) FailsNoted := by
  induction fuel generalizing n r out with
  | zero => exact absurd enough (Nat.not_lt_zero n)
  | succ fuel ih =>
    apply dataReadRec_meets.bind
    refine fun _ => .forSome fun n1 => .forSome fun r1 => .given fun le => .given ?_
    intro progress
    apply (turns out.length n1 r1 room).bind
    refine fun bytes => .given fun fits => .forSome fun n2 => .forSome fun r2 => .given ?_
    rintro ⟨less, turned⟩
    have fewer : n2 < n := by
      rcases progress with header | some
      · omega
      · have := turned some
        omega
    apply (askSub_meets (by omega)).bind
    intro _
    apply userMore_meets.bind
    intro _
    refine .ite (fun more => ?_) fun full => .pure fun s at' => ?_
    · have next := @ih n2 r2 (out ++ bytes) (by omega) (by rwa [length_append])
      apply next.weaken fun _ at' => at'
      rintro out' s ⟨all, n', r', le', at'⟩
      exact ⟨all, n', r', by omega, at'⟩
    · exact ⟨by rw [length_append]; omega, n2, r2, Nat.le_of_lt fewer, at'⟩

theorem rec_pvBuf (le : cb ≤ cbOrg - off) (room : off < cbOrg) :
    off + cb ≤ (Dest.pvBuf cbOrg).size :=
  show off + cb ≤ cbOrg by omega

theorem unbufferedRec_turns : Turns cbOrg (unbufferedRec decompress cbOrg) := by
  intro off n r room
  apply get_meets
  intro s at'
  rw [at'.cbRecLeft]
  split
  · have fits : off + min (cbOrg - off) r ≤ cbOrg := by omega
    apply (noted_meets (dataReadV2Raw_meets fits)).bind
    refine fun bytes => .given fun length => .given fun some => ?_
    apply (recLess_meets (Nat.min_le_right _ r)).bind
    refine fun _ => .pure fun s' at'' => ⟨by omega, _, _, ⟨Nat.sub_le n _, ?_⟩, at''⟩
    intro more
    omega
  · apply dataReadV2RawLzfHdr_meets.bind
    refine fun size => .given fun small => .given fun some => .forSome fun r' => .given ?_
    intro le
    refine .ite (fun fits => ?_) fun spills => ?_
    · apply (dataReadV2RawLzf_meets decompress (le.trans small)
        (show off + size ≤ cbOrg by omega)).weaken fun _ at' => at'
      exact fun bytes s' got => ⟨by omega, n - 1, 0, ⟨Nat.sub_le n 1, fun _ => by omega⟩, got.2⟩
    · apply (dataReadV2RawLzf_meets decompress (le.trans small)
        (show 0 + size ≤ cbData by omega)).bind
      refine fun bytes => .given fun length => ?_
      apply fill_meets.bind
      intro _
      apply (setData_meets (Nat.le_of_lt (not_le.1 spills)) small).bind
      intro _
      apply (askWrite_meets (rec_pvBuf (le_refl _) room)).bind
      refine fun _ => .pure fun s' at'' => ⟨?_, n - 1, 0, ⟨Nat.sub_le n 1, fun _ => by omega⟩, at''⟩
      rw [length_take]
      omega
  · apply dataReadV2RawZeroHdr_meets.bind
    refine fun size => .given fun small => .given fun some => ?_
    apply Meets.bind (Q := fun _ => At (n - 1) 0)
    · refine .ite (fun spills => ?_) fun _ => .pure fun _ at' => at'
      have room' : size - (cbOrg - off) ≤ cbData := by omega
      apply (askSub_meets (Nat.le_of_lt spills)).bind
      intro _
      apply (askWrite_meets ((Nat.zero_add _).trans_le room')).bind
      intro _
      apply fill_meets.bind
      exact fun _ => setData_meets (Nat.zero_le _) room'
    · intro _
      apply (askWrite_meets (rec_pvBuf (Nat.min_le_left _ size) room)).bind
      refine fun _ => .pure fun s' at'' => ⟨?_, n - 1, 0, ⟨Nat.sub_le n 1, fun _ => by omega⟩, at''⟩
      rw [length_replicate]
      omega
  · exact noted_meets (.fail fun s at' => ⟨at'.1, _, rfl, SsmRc.noConfusion⟩)

/-- A record that goes to the data buffer fits. -/
theorem bufferedFill_meets : Meets (At n r) (bufferedFill decompress) (fun bytes s => bytes.length ≤ cbData ∧
      ∃ n' r', (n' ≤ n ∧ (r ≠ 0 → n' + 1 ≤ n)) ∧ At n' r' s) FailsNoted := by
  apply get_meets
  intro s at'
  rw [at'.cbRecLeft]
  split
  · have fits : 0 + min cbData r ≤ cbData := by omega
    apply (noted_meets (dataReadV2Raw_meets fits)).bind
    refine fun bytes => .given fun length => .given fun some => ?_
    apply (recLess_meets (Nat.min_le_right _ r)).bind
    refine fun _ => .pure fun s' at'' => ⟨by omega, _, _, ⟨Nat.sub_le n _, ?_⟩, at''⟩
    intro more
    rw [cbData] at some ⊢
    omega
  · apply dataReadV2RawLzfHdr_meets.bind
    refine fun size => .given fun small => .given fun some => .forSome fun r' => .given ?_
    intro le
    apply (dataReadV2RawLzf_meets decompress (le.trans small)
      (show 0 + size ≤ cbData by omega)).weaken fun _ at' => at'
    exact fun bytes s' got => ⟨by omega, n - 1, 0, ⟨Nat.sub_le n 1, fun _ => by omega⟩, got.2⟩
  · apply dataReadV2RawZeroHdr_meets.bind
    refine fun size => .given fun small => .given fun some => ?_
    apply (askWrite_meets ((Nat.zero_add _).trans_le small)).bind
    refine fun _ => .pure fun s' at'' => ⟨?_, n - 1, 0, ⟨Nat.sub_le n 1, fun _ => by omega⟩, at''⟩
    rwa [length_replicate]
  · exact noted_meets (.fail fun s at' => ⟨at'.1, _, rfl, SsmRc.noConfusion⟩)

theorem bufferedRec_turns : Turns cbOrg (bufferedRec decompress cbOrg) := by
  intro off n r room
  apply (bufferedFill_meets decompress).bind
  refine fun bytes => .given fun small => .forSome fun n' => .forSome fun r' => .given ?_
  intro turned
  apply fill_meets.bind
  intro _
  apply (setData_meets (Nat.min_le_right _ _) small).bind
  intro _
  apply (askWrite_meets (rec_pvBuf (Nat.min_le_left _ _) room)).bind
  refine fun _ => .pure fun s at' => ⟨?_, n', r', turned, at'⟩
  rw [length_take]
  omega

/-! ### The calls -/

/-- What the data buffer holds is less than what is asked for. -/
theorem copyOut_meets {counts : Bool} : Meets
    (fun s => At n r s ∧ s.cbDataBuffer - s.offDataBuffer < cbOrg) (copyOut cbOrg counts)
    (fun bytes s => bytes.length < cbOrg ∧ At n r s) FailsNoted := by
  apply Meets.get_bind
  rintro s ⟨at', less⟩
  refine Meets.weaken (P := At n r) ?_ (fun s' eq => Eq.substr eq at') fun _ _ after => after
  apply (askSub_meets at'.offDataBuffer).bind
  intro _
  refine .ite (fun _ => ?_) fun none => .pure fun s' at'' => ⟨by simp; omega, at''⟩
  apply (askWrite_meets ((Nat.zero_add _).trans_le (Nat.le_of_lt less))).bind
  intro _
  apply (askSub_meets (Nat.le_of_lt less)).bind
  intro _
  apply userMore_meets.bind
  intro _
  apply (setData_meets (le_refl 0) (Nat.zero_le _)).bind
  refine fun _ => .pure fun s' at'' => ⟨?_, at''⟩
  rwa [bytesAt, length_map, length_range]

theorem dataRead_meets {fuel : Nat}
    (enough : n < fuel) : Meets (At n r) (dataRead decompress fuel cbOrg)
      (fun bytes s => bytes.length = cbOrg ∧ ∃ n' r', n' ≤ n ∧ At n' r' s) FailsNoted := by
  apply Meets.get_bind
  intro s at'
  have off := at'.offDataBuffer
  have data := at'.cbDataBuffer
  rw [cbData] at data
  refine .ite (fun bad => .fail ?_) fun _ => .ite (fun miss => ?_) fun hit => ?_
  · rintro s' rfl
    exact ⟨at'.1, bad, rfl⟩
  · have less : s.cbDataBuffer - s.offDataBuffer < cbOrg := by
      rw [cbData] at miss
      have wraps := Nat.mod_le (s.offDataBuffer + cbOrg) (2 ^ 64)
      omega
    refine .ite (fun _ => ?_) fun _ => ?_
    · apply (copyOut_meets (n := n) (r := r)).bind _ |>.weaken _ fun _ _ after => after
      · exact fun bytes => .given fun room =>
          dataReadLoop_meets (bufferedRec_turns decompress) enough room
      · rintro s' rfl
        exact ⟨at', less⟩
    · apply (copyOut_meets (n := n) (r := r)).bind _ |>.weaken _ fun _ _ after => after
      · exact fun bytes => .given fun room =>
          dataReadLoop_meets (unbufferedRec_turns decompress) enough room
      · rintro s' rfl
        exact ⟨at', less⟩
  · obtain ⟨within, small⟩ := not_or.1 hit
    rw [cbData] at small
    rw [Nat.mod_eq_of_lt (by omega)] at within
    refine Meets.weaken (P := At n r) ?_ (fun s' eq => Eq.substr eq at') fun _ _ after => after
    apply (askWrite_meets (Nat.zero_add cbOrg).le).bind
    intro _
    apply (setData_meets (not_lt.1 within) at'.cbDataBuffer).bind
    intro _
    apply userMore_meets.bind
    refine fun _ => .pure fun s' at'' => ⟨?_, n, r, le_refl n, at''⟩
    rw [bytesAt, length_map, length_range]

/-- A handle that has failed stays as it is. -/
theorem dataRead_failed {s : SsmRead} (bad : s.rc ≠ .success) (fuel cbBuf : Nat) :
    dataRead decompress fuel cbBuf s = (s, .error (.failed s.rc)) := by
  change (if s.rc ≠ .success then fail (.failed s.rc) else _ : ReadM (List UInt8)) s = _
  rw [if_pos bad]
  rfl

theorem dataReadBeginV2_bounded (s : SsmRead) : (dataReadBeginV2 s).Bounded :=
  ⟨le_refl 0, Nat.zero_le cbData, fun a mem => by cases mem⟩

theorem dataReads_kept (calls : List Nat) {s : SsmRead} (bounded : s.Bounded) :
    (dataReads decompress calls s).Bounded := by
  induction calls generalizing s with
  | nil => exact bounded
  | cons cbBuf calls ih =>
    apply ih
    have meets : Meets (At s.strm.size s.cbRecLeft)
        (dataRead decompress (s.strm.size + 1) cbBuf) _ _ :=
      dataRead_meets decompress (Nat.lt_succ_self s.strm.size)
    have call := meets.ends s ⟨bounded, le_refl _, rfl⟩
    generalize dataRead decompress (s.strm.size + 1) cbBuf s = ended at call ⊢
    obtain ⟨s', e | bytes⟩ := ended
    · exact call.1
    · obtain ⟨-, n, r, -, at'⟩ := call
      exact at'.1

/-- Between the calls the data buffer is in order and everything asked for has fitted. The next
call ends: it fills the caller's buffer, or fails for good. -/
theorem dataReads_bounded (s : SsmRead) (calls : List Nat) (cbBuf more : Nat) :
    let s' := dataReads decompress calls (dataReadBeginV2 s)
    (s'.offDataBuffer ≤ s'.cbDataBuffer ∧ s'.cbDataBuffer ≤ cbData ∧ ∀ a ∈ s'.asked, a.Fits) ∧
      match dataRead decompress (s'.strm.size + 1 + more) cbBuf s' with
      | (_, .ok bytes) => bytes.length = cbBuf
      | (s'', .error e) => e = .failed s''.rc ∧ s''.rc ≠ .success ∧ ∀ fuel cbBuf,
          dataRead decompress fuel cbBuf s'' = (s'', .error (.failed s''.rc)) := by
  intro s'
  have bounded : s'.Bounded := dataReads_kept decompress calls (dataReadBeginV2_bounded s)
  refine ⟨⟨bounded.1, bounded.2, bounded.3⟩, ?_⟩
  have enough : s'.strm.size < s'.strm.size + 1 + more := by omega
  have meets : Meets (At s'.strm.size s'.cbRecLeft)
      (dataRead decompress (s'.strm.size + 1 + more) cbBuf) _ _ :=
    dataRead_meets decompress enough
  have call := meets.ends s' ⟨bounded, le_refl _, rfl⟩
  generalize dataRead decompress (s'.strm.size + 1 + more) cbBuf s' = ended at call ⊢
  obtain ⟨s'', e | bytes⟩ := ended
  · obtain ⟨-, bad, eq⟩ := call
    exact ⟨eq, bad, dataRead_failed decompress bad⟩
  · exact call.1

end

/-! ### Any cut -/

namespace SsmInStrm

theorem copyBufs_eq (n : Nat) (cur : List UInt8) (bufs : List (List UInt8)) :
    (copyBufs n cur bufs).1 = (cur ++ bufs.flatten).take n ∧
      (copyBufs n cur bufs).2.1 ++ (copyBufs n cur bufs).2.2.flatten =
        (cur ++ bufs.flatten).drop n := by
  induction bufs generalizing n cur with
  | nil => simp [copyBufs]
  | cons buf bufs ih =>
    rw [copyBufs]
    split
    case isTrue here => simp [take_append_of_le_length here, drop_append_of_le_length here]
    case isFalse beyond =>
      obtain ⟨bytes, rest⟩ := ih (n - cur.length) buf
      have all : cur.length ≤ n := by omega
      simp [bytes, rest, take_append, drop_append, take_of_length_le all, drop_of_length_le all]

/-- The stream in one buffer. -/
def joined (s : SsmInStrm) : SsmInStrm := { s with cur := s.cur ++ s.bufs.flatten, bufs := [] }

/-- What reads in a row hand out, and the stream behind them. -/
def reads (s : SsmInStrm) : List Nat → List (List UInt8) × SsmInStrm
  | [] => ([], s)
  | n :: ns => ((s.read n).1 :: ((s.read n).2.reads ns).1, ((s.read n).2.reads ns).2)

theorem read_joined (s : SsmInStrm) (n : Nat) :
    s.joined.read n = ((s.read n).1, (s.read n).2.joined) ∧
      (s.read n).1 ++ (s.read n).2.joined.cur = s.joined.cur := by
  obtain ⟨bytes, rest⟩ := copyBufs_eq n s.cur s.bufs
  simp [read, joined, copyBufs, bytes, rest]

end SsmInStrm

end VBox.Vmm.Ssm
