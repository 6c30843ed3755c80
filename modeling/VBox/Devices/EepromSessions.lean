import VBox.Devices.EepromFrameRuns

/-!
Sessions of frames refine the memory.

A frame is chip select high and then low; behind a command that programs the array the state waits
for the handshake. Between two frames the machine is idle and holds the memory.
-/

namespace VBox.Devices.Eeprom

open List

/-! ### The memory over frames -/

namespace Memory

/-- The memory after a list of frames. -/
def runs (m : Memory) (fs : List Frame) : Memory := fs.foldl (fun m f => f.effect m) m

/-- What each of a list of frames reads. -/
def outputs : Memory → List Frame → List (List Bool)
  | _, [] => []
  | m, f :: fs => f.output m :: outputs (f.effect m) fs

end Memory

/-- What is seen of each frame of a session. -/
def observed : Eeprom93C46 → List (Frame × List (BitVec 32 × Nat)) → List (List Bool)
  | _, [] => []
  | e, (f, ws) :: rest => seen e f ws :: observed (play e ws) rest

/-! ### Chip select high -/

section High

variable {m : Memory} {e : Eeprom93C46} {sk : Bool} {f : Frame} {ws : List (BitVec 32 × Nat)}

/-- What chip select high with the bits of a frame comes to. -/
structure Brings (m : Memory) (f : Frame) (e : Eeprom93C46) (sk : Bool)
    (ws : List (BitVec 32 × Nat)) : Prop where
  programmed : f.complete && f.command.programs → Fallen (f.effect m) (play e ws)
  done : ¬ (f.complete && f.command.programs) → Done (f.effect m) (play e ws)
  clockLevel : wire (play e ws).u32InternalWires WIRES_SK = level sk ws
  seen : seen e f ws = f.output m

/-- A frame of fewer than nine bits is broken off, and reads nothing. -/
theorem brings_short (short : f.bits.length < 9) (final : Done m (play e ws))
    (levels : wire (play e ws).u32InternalWires WIRES_SK = level sk ws)
    (length : (samples e ws).length = f.bits.length) : Brings m f e sk ws := by
  have long : 9 ≤ f.command.bits.length := by
    rw [Command.bits, length_cons, length_append, length_msbFirst]
    exact Nat.succ_le_succ (Nat.le_add_right 8 _)
  have broken : f.complete = false :=
    decide_eq_false (Nat.not_le.mpr (Nat.lt_of_lt_of_le short long))
  have same : f.effect m = m := by
    rw [Frame.effect, broken]
    rfl
  refine ⟨fun programs => ?_, fun _ => same.symm ▸ final, levels, ?_⟩
  · rw [broken] at programs
    cases programs
  · rw [Eeprom.seen, Frame.output]
    split
    · rw [drop_of_length_le (length ▸ Nat.le_of_lt short),
        Nat.sub_eq_zero_of_le (Nat.le_of_lt short)]
      rfl
    · rfl

/-- A frame with operation code, address and some of the data. -/
theorem brings_decoded (ds : List Bool) (idle : Idle m e)
    (bits : f.bits = true :: (msbFirst 8 f.command.opAddr ++ ds)) (data : ds <+: f.command.payload ∨
      ∃ addr : Fin 64, f.command = .read addr ∧ ds.length ≤ 16 * (64 - addr.val))
    (selected : Selected ws) (shape : edges sk ws = f.bits)
    (clockLevel : wire e.u32InternalWires WIRES_SK = sk) : Brings m f e sk ws := by
  have length : f.bits.length = 9 + ds.length := by
    rw [bits, length_cons, length_append, length_msbFirst]
    omega
  have whole : f.command.bits.length = 9 + f.command.payload.length := by
    rw [Command.bits, length_cons, length_append, length_msbFirst]
    omega
  have complete : f.complete = decide (f.command.payload.length ≤ ds.length) := by
    rw [Frame.complete, length, whole]
    exact decide_eq_decide.mpr (Nat.add_le_add_iff_left)
  rw [bits, ← cons_append] at shape
  obtain ⟨first, second, rfl, header, rest⟩ := exists_split shape
  have high : Selected first := fun w member => selected w (mem_append_left _ member)
  have high' : Selected second := fun w member => selected w (mem_append_right _ member)
  obtain ⟨decoded, levels, nine⟩ := decoded_header idle high header clockLevel
  by_cases reads : ∃ addr, f.command = .read addr
  · obtain ⟨addr, command⟩ := reads
    have inside : ds.length ≤ 16 * (64 - addr.val) := by
      rcases data with part | ⟨other, same, inside⟩
      · rw [command] at part
        rw [prefix_nil.mp part]
        exact Nat.zero_le _
      · rw [command] at same
        rwa [Command.read.inj same]
    rw [command] at decoded
    obtain ⟨final, levels', outs⟩ := samples_data decoded inside high' rest levels
    have same : f.effect m = m := by
      rw [Frame.effect, command]
      exact ite_self m
    refine ⟨fun programs => ?_, fun _ => ?_, ?_, ?_⟩
    · have reading : f.command.programs = false := command ▸ rfl
      rw [reading, Bool.and_false] at programs
      cases programs
    · rwa [same, play_append]
    · rw [play_append, level_append, levels']
    · rw [Eeprom.seen, Frame.output, command, samples_append, length, Nat.add_sub_cancel_left]
      simp only
      rw [drop_left' nine, outs]
  · have part : ds <+: f.command.payload := data.resolve_right fun ⟨addr, command, _⟩ =>
      reads ⟨addr, command⟩
    obtain ⟨ends, levels'⟩ := ends_data decoded part high' rest levels
    refine ⟨fun programs => ?_, fun not => ?_, ?_, ?_⟩
    · rw [complete, Bool.and_eq_true, decide_eq_true_eq] at programs
      rw [play_append, Frame.effect, complete, decide_eq_true programs.1]
      exact ends.programmed programs.1 programs.2
    · rw [complete, Bool.and_eq_true, decide_eq_true_eq] at not
      rw [play_append, Frame.effect, complete]
      by_cases all : f.command.payload.length ≤ ds.length
      · rw [decide_eq_true all]
        exact ends.done all (Bool.eq_false_iff.mpr fun programs => not ⟨all, programs⟩)
      · rw [decide_eq_false all]
        exact ends.broken (Nat.lt_of_not_le all)
    · rw [play_append, level_append, levels']
    · rw [Eeprom.seen, Frame.output]
      cases command : f.command with
      | read addr => exact absurd ⟨addr, command⟩ reads
      | write => rfl
      | erase => rfl
      | writeAll => rfl
      | eraseAll => rfl
      | enable => rfl
      | disable => rfl

theorem brings_frame (idle : Idle m e) (ok : f.Ok) (selected : Selected ws)
    (shape : edges sk ws = f.bits) (clockLevel : wire e.u32InternalWires WIRES_SK = sk) :
    Brings m f e sk ws := by
  rcases ok with part | ⟨addr, clocked, command, bits, inside⟩
  · cases bits : f.bits with
    | nil =>
      rw [bits] at shape
      obtain ⟨final, levels, length, -⟩ :=
        (tracks_still Idle.latch fun idle => (Idle.done idle).rise).play selected shape clockLevel
          idle
      rw [← bits] at length
      exact brings_short (bits ▸ Nat.zero_lt_succ 8) final.done levels length
    | cons b bs =>
      rw [bits, Command.bits, cons_prefix_cons] at part
      obtain ⟨rfl, part⟩ := part
      by_cases short : bs.length < 8
      · rw [bits] at shape
        obtain ⟨final, levels, length⟩ := done_broken idle short selected shape clockLevel
        have nine : f.bits.length < 9 := by
          rw [bits]
          exact Nat.succ_lt_succ short
        exact brings_short nine final levels (length.trans (by rw [bits, length_cons]))
      · have header : msbFirst 8 f.command.opAddr <+: bs := by
          refine prefix_of_prefix_length_le (prefix_append _ _) part ?_
          rw [length_msbFirst]
          exact Nat.le_of_not_lt short
        obtain ⟨ds, rfl⟩ := header
        have data := (prefix_append_right_inj _).mp part
        exact brings_decoded ds idle bits (.inl data) selected shape clockLevel
  · refine brings_decoded clocked idle ?_ (.inr ⟨addr, command, inside⟩) selected shape clockLevel
    have payload : (Command.read addr).payload = [] := rfl
    rw [bits, command, Command.bits, payload, append_nil, cons_append]

end High

/-! ### Chip select low -/

section Low

variable {m : Memory} {e : Eeprom93C46} {sk : Bool} {ws : List (BitVec 32 × Nat)}

/-- The array was programmed, and chip select must rise. -/
structure Parked (m : Memory) (e : Eeprom93C46) : Prop where
  state : e.eState = .waitingCsRise
  holds : Holds m e

/-- Accesses with chip select low. -/
theorem play_deselected (sk : Bool) {P Q : Eeprom93C46 → Prop}
    (falls : ∀ {e}, P e → ∀ u32Wires, Q (e.deselect.latch u32Wires))
    (stays : ∀ {e}, Q e → ∀ u32Wires, Q (e.deselect.latch u32Wires)) (deselected : Deselected ws)
    (start : P e) : Q (play e ws) ∧
      wire (play e ws).u32InternalWires WIRES_SK = level sk ws ∧ samples e ws = [] := by
  obtain ⟨some, low⟩ := deselected
  induction ws generalizing P e sk with
  | nil => exact absurd rfl some
  | cons w ws ih =>
    have here := low w mem_cons_self
    have access : e.write w.1 w.2 = e.deselect.latch w.1 := by
      rw [Eeprom93C46.write, here]
      rfl
    have next : Q (e.write w.1 w.2) := access ▸ falls start w.1
    rw [samples, here, Bool.false_and, if_neg Bool.false_ne_true, level]
    show Q (play (e.write w.1 w.2) ws) ∧
      wire (play (e.write w.1 w.2) ws).u32InternalWires WIRES_SK = _ ∧ _
    by_cases last : ws = []
    · subst last
      exact ⟨next, access ▸ Eeprom93C46.latch_sk _ w.1, rfl⟩
    · exact ih _ stays next last fun w member => low w (mem_cons_of_mem _ member)

theorem Done.deselect (done : Done m e) (u32Wires : BitVec 32) :
    Idle m (e.deselect.latch u32Wires) := by
  unfold Eeprom93C46.deselect
  split
  case h_1 state => exact absurd state done.fall
  case h_2 state => exact absurd state done.rise
  all_goals exact ⟨rfl, ⟨done.holds.data, done.holds.enabled⟩⟩

theorem Fallen.deselect (fallen : Fallen m e) (u32Wires : BitVec 32) :
    Parked m (e.deselect.latch u32Wires) := by
  rw [Eeprom93C46.deselect, fallen.state]
  exact ⟨rfl, ⟨fallen.holds.data, fallen.holds.enabled⟩⟩

theorem Parked.deselect (parked : Parked m e) (u32Wires : BitVec 32) :
    Parked m (e.deselect.latch u32Wires) := by
  rw [Eeprom93C46.deselect, parked.state]
  exact ⟨parked.state, ⟨parked.holds.data, parked.holds.enabled⟩⟩

/-- Between two frames, with the level of the clock known. -/
structure Rest (m : Memory) (sk : Bool) (e : Eeprom93C46) : Prop where
  idle : Idle m e
  clockLevel : wire e.u32InternalWires WIRES_SK = sk

theorem rest_deselected (sk : Bool) (done : Done m e) (deselected : Deselected ws) :
    Rest m (level sk ws) (play e ws) ∧ samples e ws = [] := by
  obtain ⟨idle, levels, none⟩ := play_deselected sk Done.deselect
    (fun idle => (Idle.done idle).deselect) deselected done
  exact ⟨⟨idle, levels⟩, none⟩

/-- The handshake. -/
theorem rest_handshake (parked : Parked m e) (clockLevel : wire e.u32InternalWires WIRES_SK = sk)
    (handshake : Handshake sk ws) : Rest m (level sk ws) (play e ws) ∧ samples e ws = [] := by
  obtain ⟨ready, low, rfl, some, selected, still, deselected⟩ := handshake
  cases ready with
  | nil => exact absurd rfl some
  | cons w ready =>
    have here := selected w mem_cons_self
    have later : Selected ready := fun w member => selected w (mem_cons_of_mem _ member)
    have flat : (!sk && wire w.1 WIRES_SK) = false := by
      cases edge : !sk && wire w.1 WIRES_SK with
      | false => rfl
      | true =>
        rw [edges, edge] at still
        cases still
    have stays : e.rises w.1 = false := by rw [Eeprom93C46.rises, clockLevel, flat]
    have access : e.write w.1 w.2 = ({ e with eState := .standby }.drive true).latch w.1 := by
      rw [Eeprom93C46.write, if_pos here, stays, if_neg Bool.false_ne_true, if_pos parked.state]
    have idle : Idle m (e.write w.1 w.2) := by
      rw [access]
      exact ⟨rfl, ⟨parked.holds.data, parked.holds.enabled⟩⟩
    have levels : wire (e.write w.1 w.2).u32InternalWires WIRES_SK = wire w.1 WIRES_SK := by
      rw [access, Eeprom93C46.latch_sk]
    rw [edges, flat, if_neg Bool.false_ne_true] at still
    obtain ⟨final, levels', length, -⟩ :=
      (tracks_still Idle.latch fun idle => (Idle.done idle).rise).play later still levels idle
    obtain ⟨rest, none⟩ := rest_deselected (level (wire w.1 WIRES_SK) ready) final.done deselected
    have quiet : samples e (w :: ready) = [] := by
      rw [samples, stays, Bool.and_false, if_neg Bool.false_ne_true]
      exact eq_nil_of_length_eq_zero length
    rw [play_append, level_append, samples_append, quiet]
    exact ⟨rest, none⟩

end Low

/-! ### Sessions -/

section Sessions

variable {m : Memory} {e : Eeprom93C46} {sk : Bool} {f : Frame} {ws : List (BitVec 32 × Nat)}
  {session : List (Frame × List (BitVec 32 × Nat))}

theorem seen_append {ws' : List (BitVec 32 × Nat)} (none : samples (play e ws) ws' = []) :
    seen e f (ws ++ ws') = seen e f ws := by
  unfold seen
  rw [samples_append, none, append_nil]

/-- One frame. -/
theorem rest_frame (rest : Rest m sk e) (ok : f.Ok) (carries : Carries sk f ws) :
    Rest (f.effect m) (level sk ws) (play e ws) ∧ seen e f ws = f.output m := by
  obtain ⟨high, low, behind, rfl, selected, shape, deselected, shakes⟩ := carries
  have brings := brings_frame rest.idle ok selected shape rest.clockLevel
  by_cases programs : f.complete && f.command.programs
  · rw [if_pos programs] at shakes
    obtain ⟨parked, levels, none⟩ := play_deselected (level sk high) Fallen.deselect
      Parked.deselect deselected (brings.programmed programs)
    rw [level_append] at shakes
    obtain ⟨final, none'⟩ := rest_handshake parked levels shakes
    rw [play_append, play_append, level_append, level_append, seen_append]
    · exact ⟨final, brings.seen⟩
    · rw [samples_append, none, none']
      rfl
  · rw [if_neg programs] at shakes
    subst shakes
    obtain ⟨final, none⟩ := rest_deselected (level sk high) (brings.done programs) deselected
    rw [append_nil, play_append, level_append, seen_append none]
    exact ⟨final, brings.seen⟩

/-- A session, from wherever a frame before it left the machine. -/
theorem rest_session (session' : Session sk session) (rest : Rest m sk e) :
    observed e session = m.outputs (session.map Prod.fst) ∧
      Holds (m.runs (session.map Prod.fst)) (play e (session.flatMap Prod.snd)) := by
  induction session' generalizing m e with
  | nil => exact ⟨rfl, rest.idle.holds⟩
  | cons ok carries _ ih =>
    obtain ⟨after, out⟩ := rest_frame rest ok carries
    obtain ⟨outs, final⟩ := ih after
    rw [map_cons, flatMap_cons, play_append, observed, Memory.outputs, out, outs]
    exact ⟨rfl, final⟩

theorem rest_init (e : Eeprom93C46) (pu16Initial : Nat → Nat) :
    Rest ⟨pu16Initial, false⟩ false (e.init pu16Initial) where
  idle := ⟨rfl, ⟨rfl, rfl⟩⟩
  clockLevel := show wire 0 WIRES_SK = false by decide

/-- Every session reads what the memory holds, and leaves the array as the memory. -/
theorem session_refines_memory (e : Eeprom93C46) (pu16Initial : Nat → Nat)
    (session : List (Frame × List (BitVec 32 × Nat))) (carried : Session false session) :
    observed (e.init pu16Initial) session =
        Memory.outputs ⟨pu16Initial, false⟩ (session.map Prod.fst) ∧
      (play (e.init pu16Initial) (session.flatMap Prod.snd)).au16Data =
        (Memory.runs ⟨pu16Initial, false⟩ (session.map Prod.fst)).data := by
  obtain ⟨outs, final⟩ := rest_session carried (rest_init e pu16Initial)
  exact ⟨outs, final.data⟩

end Sessions

/-! ### Every list of frames has a session -/

/-- Bits, each with a pulse of the clock. -/
def pulses (bs : List Bool) : List (BitVec 32 × Nat) :=
  bs.flatMap fun b => [(cond b 6 2, 0), (cond b 7 3, 0)]

/-- The bits of a frame, chip select low, and the handshake where there is one. -/
def Frame.wires (f : Frame) : List (BitVec 32 × Nat) :=
  pulses f.bits ++ ([(0, 0)] ++
    if f.complete && f.command.programs then [(2, 0)] ++ [(0, 0)] else [])

theorem edges_pulses (sk : Bool) (bs : List Bool) : edges sk (pulses bs) = bs := by
  induction bs generalizing sk with
  | nil => rfl
  | cons b bs ih =>
    have one : edges sk (pulses (b :: bs)) = b :: edges true (pulses bs) := by
      cases b <;> cases sk <;> rfl
    rw [one, ih]

theorem selected_pulses (bs : List Bool) : Selected (pulses bs) := by
  intro w member
  obtain ⟨b, _, here⟩ := mem_flatMap.mp member
  have both : ∀ b, ∀ w ∈ [((cond b 6 2 : BitVec 32), 0), (cond b 7 3, 0)],
      wire w.1 WIRES_CS = true := by decide
  exact both b w here

theorem deselected_zero : Deselected [(0, 0)] :=
  ⟨cons_ne_nil _ _, by decide⟩

theorem level_zero (sk : Bool) : level sk [((0 : BitVec 32), 0)] = false := by
  show wire 0 WIRES_SK = false
  decide

theorem carries_wires (f : Frame) : Carries false f f.wires := by
  refine ⟨pulses f.bits, [(0, 0)], _, rfl, selected_pulses f.bits, edges_pulses false f.bits,
    deselected_zero, ?_⟩
  split
  · have high : ∀ w ∈ [((2 : BitVec 32), 0)], wire w.1 WIRES_CS = true := by decide
    refine ⟨[(2, 0)], [(0, 0)], rfl, cons_ne_nil _ _, high, ?_, deselected_zero⟩
    rw [level_append, level_zero]
    decide
  · rfl

theorem level_wires (f : Frame) : level false f.wires = false := by
  rw [Frame.wires, level_append, level_append, level_zero]
  split <;> decide

theorem session_wires (fs : List Frame) (ok : ∀ f ∈ fs, f.Ok) :
    Session false (fs.map fun f => (f, f.wires)) := by
  induction fs with
  | nil => exact .nil false
  | cons f fs ih =>
    refine .cons (ok f mem_cons_self) (carries_wires f) ?_
    rw [level_wires]
    exact ih fun f member => ok f (mem_cons_of_mem _ member)

theorem session_refines_memory_writeRead :
    let frames : List Frame :=
      [⟨.enable 0, (Command.enable 0).bits⟩, ⟨.write 5 0xa5c3, (Command.write 5 0xa5c3).bits⟩,
        ⟨.disable 0, (Command.disable 0).bits⟩, ⟨.eraseAll 0, (Command.eraseAll 0).bits⟩,
        ⟨.read 4, (Command.read 4).bits ++ replicate 32 false⟩]
    ∀ e : Eeprom93C46,
      observed (e.init fun _ => 0xff) (frames.map fun f => (f, f.wires)) =
        [[], [], [], [], msbFirst 16 0xff ++ msbFirst 16 0xa5c3] := by
  intro frames e
  have ok : ∀ f ∈ frames, f.Ok := by
    intro f member
    simp only [frames, mem_cons, not_mem_nil, or_false] at member
    rcases member with rfl | rfl | rfl | rfl | rfl
    · exact .inl (prefix_refl _)
    · exact .inl (prefix_refl _)
    · exact .inl (prefix_refl _)
    · exact .inl (prefix_refl _)
    · exact .inr ⟨4, replicate 32 false, rfl, rfl, by decide⟩
  rw [(session_refines_memory e (fun _ => 0xff) _ (session_wires frames ok)).1]
  decide +kernel

end VBox.Devices.Eeprom
