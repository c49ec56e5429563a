import FreeRDP.Planar.Encode
import FreeRDP.Planar.Equiv.Walkers

/-!
# Decoding a plane that has been encoded

`Codes` says that a list of bytes is made of segments wherever it is in a source.  What the encoder writes
for a scanline is of this kind (`encodeRleBytes_spec`), so that a whole plane is of the grammar, and the
values of its codes are the plane that the deltas have been taken of (`values_delta`).

Every function that writes is described by a list: it writes the list if there is room for it.
-/

namespace FreeRDP.Planar

open Traced Memory Relation

variable {nWidth x n : ℕ} {c src : ℕ → UInt8} {code code' : List UInt8}

/-! ### Deltas -/

theorem pixelOf_foldDelta : ∀ n < 511,
    (pixelOf false (foldDelta ((n : ℕ) - 255)) : ℤ) % 2 ^ 8 = (n - 255) % 2 ^ 8 := by
  decide +kernel

theorem value_deltaCode (src prevLine : UInt8) :
    UInt8.ofNat (prevLine.toNat + pixelOf false (deltaCode src prevLine)) = src := by
  have hsrc := src.toNat_lt
  have hprev := prevLine.toNat_lt
  have hdelta := pixelOf_foldDelta (src.toNat + 255 - prevLine.toNat) (by omega)
  have hcast : ((src.toNat + 255 - prevLine.toNat : ℕ) : ℤ) - 255 = src.toNat - prevLine.toNat := by
    omega
  rw [hcast] at hdelta
  apply UInt8.toNat_inj.mp
  rw [UInt8.toNat_ofNat', deltaCode]
  omega

/-! ### Codes of a scanline -/

/-- The bytes stand for the codes from `x` to `y`. -/
def Codes (nWidth : ℕ) (c : ℕ → UInt8) (x : ℕ) (code : List UInt8) (y : ℕ) : Prop :=
  ∀ m p, HoldsAt m p code → ReflTransGen (Segment m nWidth c) (x, p) (y, p + code.length)

theorem Codes.nil : Codes nWidth c x [] x := fun _ _ _ => ReflTransGen.refl

theorem Codes.append {y z : ℕ} (h : Codes nWidth c x code y) (h' : Codes nWidth c y code' z) :
    Codes nWidth c x (code ++ code') z := by
  intro m p hm
  obtain ⟨hcode, hcode'⟩ := holdsAt_append.mp hm
  rw [List.length_append, ← Nat.add_assoc]
  exact (h m p hcode).trans (h' m _ hcode')

theorem control_controlByte :
    ∀ run < 16, ∀ raw < 16, controlByte run raw < 2 ^ 8 ∧ controlByte run raw >>> 4 = raw ∧
      control (controlByte run raw) =
        if run = 1 then (raw + 16, 0) else if run = 2 then (raw + 32, 0) else (run, raw) := by
  decide

theorem codes_segment {byte run raw : ℕ} (hbyte : byte < 2 ^ 8) (hcontrol : control byte = (run, raw))
    (hpos : 0 < raw + run) (hx : x + raw + run ≤ nWidth)
    (hrun : ∀ i < run, c (x + raw + i) = lastCode c (x + raw)) :
    Codes nWidth c x (UInt8.ofNat byte :: bytesAt c x raw) (x + raw + run) := by
  intro m p hm
  obtain ⟨hm, hraw⟩ := holdsAt_cons.mp hm
  have hcontrol' : control (m p).toNat = (run, raw) := by
    rw [hm, UInt8.toNat_ofNat', Nat.mod_eq_of_lt hbyte, hcontrol]
  rw [List.length_cons, length_bytesAt]
  refine ReflTransGen.single ⟨?_, ?_, hx, ?_, ?_, ?_⟩
  · show x < nWidth
    omega
  · dsimp only
    rw [hcontrol']
  · dsimp only
    rw [hcontrol']
    omega
  · dsimp only
    rw [hcontrol']
    intro i hi
    exact (holdsAt_bytesAt.mp hraw i hi).symm
  · dsimp only
    rw [hcontrol']
    exact hrun

/-! ### Runs -/

/-- There is a run of `run` times the code before `x`. -/
def Run (c : ℕ → UInt8) (x run : ℕ) : Prop := ∀ i < run, c (x + i) = lastCode c x

theorem Run.drop {run k : ℕ} (h : Run c x run) (hk : k ≤ run) : Run c (x + k) (run - k) := by
  intro i hi
  have hlast : lastCode c (x + k) = lastCode c x := by
    cases k with
    | zero => rfl
    | succ k =>
      rw [lastCode, if_neg (by omega)]
      exact h k (by omega)
  rw [hlast, Nat.add_assoc]
  exact h (k + i) (by omega)

theorem Run.take {run k : ℕ} (h : Run c x run) (hk : k ≤ run) : Run c x k :=
  fun i hi => h i (by omega)

/-- The length of a run that is encoded as such. -/
def IsRun (run : ℕ) : Prop := run = 0 ∨ 3 ≤ run

theorem runSegment_spec {run : ℕ} (hrun : 3 ≤ run) :
    (runSegment run).1 < 2 ^ 8 ∧ (runSegment run).2 < run ∧ IsRun (runSegment run).2 ∧
      control (runSegment run).1 = (run - (runSegment run).2, 0) := by
  unfold runSegment IsRun
  by_cases h47 : run > 47
  · rw [if_pos h47]
    by_cases h50 : run < 50
    · obtain ⟨hlt, -, hcontrol⟩ := control_controlByte 2 (by decide) 13 (by decide)
      rw [if_pos h50]
      refine ⟨hlt, by dsimp only; omega, Or.inr (by dsimp only; omega), hcontrol.trans ?_⟩
      show (45, 0) = (run - (run - 45), 0)
      rw [Nat.sub_sub_self (by omega)]
    · obtain ⟨hlt, -, hcontrol⟩ := control_controlByte 2 (by decide) 15 (by decide)
      rw [if_neg h50]
      refine ⟨hlt, by dsimp only; omega, Or.inr (by dsimp only; omega), hcontrol.trans ?_⟩
      show (47, 0) = (run - (run - 47), 0)
      rw [Nat.sub_sub_self (by omega)]
  rw [if_neg h47]
  by_cases h31 : run > 31
  · obtain ⟨hlt, -, hcontrol⟩ := control_controlByte 2 (by decide) (run - 32) (by omega)
    rw [if_pos h31]
    refine ⟨hlt, by dsimp only; omega, Or.inl rfl, hcontrol.trans ?_⟩
    show (run - 32 + 32, 0) = (run - 0, 0)
    rw [Nat.sub_add_cancel (by omega), Nat.sub_zero]
  rw [if_neg h31]
  by_cases h15 : run > 15
  · obtain ⟨hlt, -, hcontrol⟩ := control_controlByte 1 (by decide) (run - 16) (by omega)
    rw [if_pos h15]
    refine ⟨hlt, by dsimp only; omega, Or.inl rfl, hcontrol.trans ?_⟩
    show (run - 16 + 16, 0) = (run - 0, 0)
    rw [Nat.sub_add_cancel (by omega), Nat.sub_zero]
  · obtain ⟨hlt, -, hcontrol⟩ := control_controlByte run (by omega) 0 (by decide)
    rw [if_neg (by omega), if_neg (by omega)] at hcontrol
    rw [if_neg h15]
    exact ⟨hlt, by dsimp only; omega, Or.inl rfl, hcontrol⟩

theorem writeRun_spec {run : ℕ} (hn : run ≤ n) (hlong : IsRun run) (hx : x + run ≤ nWidth)
    (hrun : Run c x run) :
    ∃ code, (∀ room, code.length ≤ room → writeRun n run room = some (code, room - code.length)) ∧
      Codes nWidth c x code (x + run) ∧ (run ≠ 0 → code ≠ []) := by
  induction n generalizing x run with
  | zero =>
    obtain rfl : run = 0 := Nat.le_zero.mp hn
    exact ⟨[], fun _ _ => rfl, Codes.nil, fun h => absurd rfl h⟩
  | succ n ih =>
    rcases hlong with rfl | hthree
    · exact ⟨[], fun _ _ => by rw [writeRun, if_pos rfl]; rfl, Codes.nil, fun h => absurd rfl h⟩
    obtain ⟨hbyte, hlt, hlong, hcontrol⟩ := runSegment_spec hthree
    generalize hsegment : runSegment run = r at hbyte hlt hlong hcontrol
    obtain ⟨byte, rest⟩ := r
    dsimp only at hbyte hlt hlong hcontrol
    have hrest := hrun.drop (k := run - rest) (by omega)
    rw [Nat.sub_sub_self hlt.le] at hrest
    obtain ⟨code, hwrite, hcodes, -⟩ := ih (by omega) hlong (by omega) hrest
    have hfirst := codes_segment hbyte hcontrol (by omega) (show x + 0 + (run - rest) ≤ nWidth by omega)
      (hrun.take (by omega))
    refine ⟨UInt8.ofNat byte :: code, fun room hroom => ?_, ?_, fun _ => List.cons_ne_nil _ _⟩
    · rw [List.length_cons] at hroom
      rw [writeRun, if_neg (by omega), hsegment]
      dsimp only
      rw [if_neg (by omega), hwrite (room - 1) (by omega), Option.map_some, List.length_cons,
        Nat.sub_sub, Nat.add_comm 1]
    · have hall := hfirst.append hcodes
      rwa [Nat.add_assoc, Nat.sub_add_cancel hlt.le] at hall

/-! ### Raw bytes -/

/-- A control byte for raw bytes either leaves no raw bytes, or no run. -/
theorem rawSegment_spec {raw run : ℕ} (hraw : 0 < raw) (hlong : IsRun run) :
    0 < (rawSegment raw run).2 ∧ (rawSegment raw run).2 ≤ raw ∧ (rawSegment raw run).2 < 16 ∧
      (rawSegment raw run).1 < 16 ∧ (rawSegment raw run).1 ≤ run ∧ (rawSegment raw run).1 ≠ 1 ∧
      (rawSegment raw run).1 ≠ 2 ∧ IsRun (run - (rawSegment raw run).1) ∧
      ((rawSegment raw run).2 < raw → (rawSegment raw run).1 = 0) := by
  unfold IsRun at hlong
  unfold rawSegment IsRun
  split_ifs <;> dsimp only <;> omega

theorem writeRaw_zero (src : ℕ → UInt8) (n pInput run room : ℕ) :
    writeRaw src n pInput 0 run room = some ([], run, room) := by
  cases n with
  | zero => rfl
  | succ n => rw [writeRaw, if_pos rfl]

/-- The codes of a scanline that starts at `base`. -/
def codesAt (src : ℕ → UInt8) (base : ℕ) : ℕ → UInt8 := fun x => src (base + x)

theorem bytesAt_codesAt (src : ℕ → UInt8) (base x k : ℕ) :
    bytesAt (codesAt src base) x k = bytesAt src (base + x) k :=
  List.map_congr_left fun i _ => by rw [codesAt, Nat.add_assoc]

variable {base raw run : ℕ}

theorem writeRaw_spec (hn : raw ≤ n) (hlong : IsRun run) (hx : x + raw + run ≤ nWidth)
    (hrun : Run (codesAt src base) (x + raw) run) :
    ∃ code rest, (∀ room, code.length ≤ room →
        writeRaw src n (base + x) raw run room = some (code, rest, room - code.length)) ∧
      rest ≤ run ∧ IsRun rest ∧ Codes nWidth (codesAt src base) x code (x + raw + (run - rest)) ∧
      (raw = 0 → rest = run) ∧ (raw ≠ 0 → code ≠ []) := by
  induction n generalizing x raw with
  | zero =>
    obtain rfl : raw = 0 := Nat.le_zero.mp hn
    refine ⟨[], run, fun _ _ => rfl, Nat.le_refl _, hlong, ?_, fun _ => rfl, fun h => absurd rfl h⟩
    rw [Nat.sub_self]
    exact Codes.nil
  | succ n ih =>
    by_cases hzero : raw = 0
    · subst hzero
      refine ⟨[], run, fun _ _ => writeRaw_zero _ _ _ _ _, Nat.le_refl _, hlong, ?_, fun _ => rfl,
        fun h => absurd rfl h⟩
      rw [Nat.sub_self]
      exact Codes.nil
    obtain ⟨hpos, hle, hraw, hrun16, hrunle, hne1, hne2, hrest, hmore⟩ :=
      rawSegment_spec (Nat.pos_of_ne_zero hzero) hlong
    generalize hsegment : rawSegment raw run = r at hpos hle hraw hrun16 hrunle hne1 hne2 hrest hmore
    obtain ⟨run', raw'⟩ := r
    dsimp only at hpos hle hraw hrun16 hrunle hne1 hne2 hrest hmore
    obtain ⟨hbyte, hshift, hcontrol⟩ := control_controlByte run' hrun16 raw' hraw
    rw [if_neg hne1, if_neg hne2] at hcontrol
    have hstep (room : ℕ) (hroom : raw' + 1 ≤ room) :
        writeRaw src (n + 1) (base + x) raw run room =
          (writeRaw src n (base + x + raw') (raw - raw') (run - run') (room - 1 - raw')).map
            fun p =>
              (UInt8.ofNat (controlByte run' raw') :: bytesAt src (base + x) raw' ++ p.1, p.2) := by
      rw [writeRaw, if_neg hzero, hsegment]
      dsimp only
      rw [hshift, if_neg (by omega), if_neg (by omega)]
    by_cases hlast : raw' < raw
    · -- only raw bytes are written
      obtain rfl : run' = 0 := hmore hlast
      have hdrop : Run (codesAt src base) (x + raw' + (raw - raw')) run := by
        rwa [Nat.add_assoc, Nat.add_sub_cancel' hle]
      obtain ⟨code, rest, hwrite, hrestle, hrestlong, hcodes, -⟩ :=
        ih (show raw - raw' ≤ n by omega) (by omega) hdrop
      have hfirst := codes_segment (c := codesAt src base) hbyte hcontrol (by omega)
        (show x + raw' + 0 ≤ nWidth by omega) fun i hi => absurd hi (Nat.not_lt_zero i)
      refine ⟨UInt8.ofNat (controlByte 0 raw') :: bytesAt src (base + x) raw' ++ code, rest,
        fun room hroom => ?_, hrestle, hrestlong, ?_, fun h => absurd h hzero,
        fun _ => List.cons_ne_nil _ _⟩
      · rw [List.length_append, List.length_cons, length_bytesAt] at hroom
        rw [hstep room (by omega), Nat.sub_zero, Nat.add_assoc, hwrite _ (by omega), Option.map_some,
          List.length_append, List.length_cons, length_bytesAt]
        have hleft : room - 1 - raw' - code.length = room - (raw' + 1 + code.length) := by omega
        rw [← hleft]
      · rw [← bytesAt_codesAt]
        have hall := hfirst.append hcodes
        rwa [Nat.add_assoc x, Nat.add_sub_cancel' hle] at hall
    · -- the last raw bytes are written, and the beginning of the run
      obtain rfl : raw' = raw := by omega
      have hfirst := codes_segment (c := codesAt src base) hbyte hcontrol (by omega)
        (show x + raw' + run' ≤ nWidth by omega) (hrun.take hrunle)
      refine ⟨UInt8.ofNat (controlByte run' raw') :: bytesAt src (base + x) raw', run - run',
        fun room hroom => ?_, Nat.sub_le _ _, hrest, ?_, fun h => absurd h hzero,
        fun _ => List.cons_ne_nil _ _⟩
      · rw [List.length_cons, length_bytesAt] at hroom ⊢
        have hleft : room - 1 - raw' = room - (raw' + 1) := by omega
        rw [hstep room hroom, Nat.sub_self, writeRaw_zero, Option.map_some, hleft]
        dsimp only
        rw [List.append_nil]
      · rw [← bytesAt_codesAt, Nat.sub_sub_self hrunle]
        exact hfirst

theorem writeRleBytes_spec (hpos : 0 < raw + run) (hx : x + raw + run ≤ nWidth)
    (hrun : Run (codesAt src base) (x + raw) run) :
    ∃ code, code ≠ [] ∧ (∀ room, code.length ≤ room →
        writeRleBytes src (base + x) raw run room = some (code, room - code.length)) ∧
      Codes nWidth (codesAt src base) x code (x + raw + run) := by
  have hsplit : ∃ raw' run', (if run < 3 then (raw + run, 0) else (raw, run)) = (raw', run') ∧
      raw' + run' = raw + run ∧ IsRun run' ∧ Run (codesAt src base) (x + raw') run' := by
    by_cases hshort : run < 3
    · exact ⟨raw + run, 0, if_pos hshort, rfl, Or.inl rfl, nofun⟩
    · exact ⟨raw, run, if_neg hshort, rfl, Or.inr (by omega), hrun⟩
  obtain ⟨raw', run', heq, hsum, hlong, hrun'⟩ := hsplit
  obtain ⟨code, rest, hwrite, hle, hlong', hcodes, hall, hne⟩ := writeRaw_spec
    (Nat.le_refl raw') hlong (show x + raw' + run' ≤ nWidth by omega) hrun'
  have hdrop := hrun'.drop (k := run' - rest) (by omega)
  rw [Nat.sub_sub_self hle] at hdrop
  obtain ⟨code', hwrite', hcodes', hne'⟩ := writeRun_spec (Nat.le_refl rest) hlong'
    (show x + raw' + (run' - rest) + rest ≤ nWidth by omega) hdrop
  refine ⟨code ++ code', ?_, fun room hroom => ?_, ?_⟩
  · intro hnil
    obtain ⟨hcode, hcode'⟩ := List.append_eq_nil_iff.mp hnil
    have hraw : raw' = 0 := by
      by_contra h
      exact hne h hcode
    have hrest : rest = 0 := by
      by_contra h
      exact hne' h hcode'
    have := hall hraw
    omega
  · rw [List.length_append] at hroom
    rw [writeRleBytes, if_neg (by omega), heq]
    dsimp only
    rw [hwrite room (by omega), Option.bind_some]
    dsimp only
    rw [hwrite' _ (by omega), Option.map_some, List.length_append, Nat.sub_sub]
  · have hwhole := hcodes.append hcodes'
    have hplace : x + raw' + (run' - rest) + rest = x + raw + run := by omega
    rwa [hplace] at hwhole

/-! ### Scanlines -/

/-- The bytes that have been counted: `raw` of them, and a run of `run` times the last code. -/
structure Pending (c : ℕ → UInt8) (x raw run : ℕ) : Prop where
  le : raw + run ≤ x
  run : Run c (x - run) run

theorem lastCode_of_run {run : ℕ} (hle : run ≤ x) (hrun : Run c (x - run) run) :
    lastCode c x = lastCode c (x - run) := by
  cases run with
  | zero => rfl
  | succ k =>
    have hlast := hrun k (Nat.lt_succ_self k)
    rw [lastCode, if_neg (by omega), ← hlast]
    exact congrArg c (by omega)

theorem Pending.match {raw run : ℕ} (h : Pending c x raw run) (hmatch : lastCode c x = c x) :
    Pending c (x + 1) raw (run + 1) := by
  have hle := h.le
  refine ⟨by omega, ?_⟩
  rw [Nat.add_sub_add_right]
  intro i hi
  by_cases hlast : i = run
  · rw [hlast, Nat.sub_add_cancel (by omega), ← hmatch, lastCode_of_run (by omega) h.run]
  · exact h.run i (by omega)

theorem Pending.of_le (h : raw ≤ x) : Pending c x raw 0 := ⟨h, nofun⟩

theorem flush_spec {raw run : ℕ} (ahead : ℕ) (symbol : UInt8) (h : Pending (codesAt src base) x raw run)
    (hpos : 0 < raw + run) (hx : x ≤ nWidth) :
    ∃ code, code ≠ [] ∧ (∀ out room, code.length ≤ room →
        Encoder.flush src ahead ⟨symbol, raw, run, base + x + ahead, out, room⟩ =
          some ⟨symbol, 0, 0, base + x + ahead, out ++ code, room - code.length⟩) ∧
      Codes nWidth (codesAt src base) (x - (raw + run)) code x := by
  have hle := h.le
  have hrun : Run (codesAt src base) (x - (raw + run) + raw) run := by
    have hplace : x - (raw + run) + raw = x - run := by omega
    rw [hplace]
    exact h.run
  obtain ⟨code, hne, hwrite, hcodes⟩ :=
    writeRleBytes_spec hpos (show x - (raw + run) + raw + run ≤ nWidth by omega) hrun
  refine ⟨code, hne, fun out room hroom => ?_, ?_⟩
  · have hplace : base + x + ahead - (raw + run + ahead) = base + (x - (raw + run)) := by omega
    rw [Encoder.flush]
    dsimp only
    rw [hplace, hwrite room hroom, Option.map_some]
  · have hplace : x - (raw + run) + raw + run = x := by omega
    rwa [hplace] at hcodes

/-- One byte of the scanline: what is written, and the bytes that are pending then. -/
theorem encodeStep_spec {raw run : ℕ} (h : Pending (codesAt src base) x raw run) (hx : x < nWidth) :
    ∃ code raw' run', (∀ out room, code.length ≤ room →
        encodeStep src ⟨lastCode (codesAt src base) x, raw, run, base + x, out, room⟩ =
          some ⟨lastCode (codesAt src base) (x + 1), raw', run', base + (x + 1), out ++ code,
            room - code.length⟩) ∧
      Pending (codesAt src base) (x + 1) raw' run' ∧ 0 < raw' + run' ∧
      Codes nWidth (codesAt src base) (x - (raw + run)) code (x + 1 - (raw' + run')) := by
  have hle := h.le
  have hsymbol : lastCode (codesAt src base) (x + 1) = src (base + x) := by
    rw [lastCode, if_neg (Nat.succ_ne_zero x), Nat.add_sub_cancel, codesAt]
  rw [hsymbol]
  by_cases hmatch : lastCode (codesAt src base) x = src (base + x)
  · refine ⟨[], raw, run + 1, fun out room _ => ?_, h.match hmatch, by omega, ?_⟩
    · simp [encodeStep, hmatch, Nat.add_assoc]
    · have hplace : x + 1 - (raw + (run + 1)) = x - (raw + run) := by omega
      rw [hplace]
      exact Codes.nil
  by_cases hshort : run < 3
  · refine ⟨[], raw + run + 1, 0, fun out room _ => ?_, .of_le (by omega), by omega, ?_⟩
    · by_cases hzero : run = 0
      · simp [encodeStep, hmatch, hzero, Nat.add_assoc]
      · simp [encodeStep, hmatch, hzero, hshort, Nat.add_assoc]
    · have hplace : x + 1 - (raw + run + 1 + 0) = x - (raw + run) := by omega
      rw [hplace]
      exact Codes.nil
  · -- the run is long enough to be written
    obtain ⟨code, -, hflush, hcodes⟩ := flush_spec 1 (src (base + x)) h (by omega) hx.le
    refine ⟨code, 1, 0, fun out room hroom => ?_, .of_le (by omega), by omega, ?_⟩
    · have hflush := hflush out room hroom
      have hne : run ≠ 0 := by omega
      simp [encodeStep, hmatch, hne, hshort, ← Nat.add_assoc, hflush]
    · exact hcodes

/-- What is written from `x` on: the induction is on the bytes that are left of the scanline. -/
theorem encodeLoop_spec {raw run : ℕ} (k : ℕ) (h : Pending (codesAt src base) x raw run)
    (hx : x + k = nWidth) :
    ∃ code, (∀ out room, code.length ≤ room → ∃ e,
        (encodeLoop src k ⟨lastCode (codesAt src base) x, raw, run, base + x, out, room⟩).bind
            (fun r => encodeRest src r.1 r.2) = some e ∧
          e.out = out ++ code ∧ e.outBufferSize = room - code.length) ∧
      Codes nWidth (codesAt src base) (x - (raw + run)) code nWidth ∧ (0 < raw + run + k → code ≠ []) := by
  induction k generalizing x raw run with
  | zero =>
    obtain rfl : x = nWidth := hx
    by_cases hpos : 0 < raw + run
    · obtain ⟨code, hne, hflush, hcodes⟩ := flush_spec 0 (lastCode (codesAt src base) x) h hpos le_rfl
      refine ⟨code, fun out room hroom =>
        ⟨⟨lastCode (codesAt src base) x, 0, 0, base + x, out ++ code, room - code.length⟩, ?_, rfl, rfl⟩,
        hcodes, fun _ => hne⟩
      rw [encodeLoop, Option.bind_some, encodeRest, if_pos (by dsimp only; omega)]
      exact congrArg (fun o => Option.bind o fun e => if 0 ≠ 0 then none else some e)
        (hflush out room hroom)
    · have hnone : ¬ (raw ≠ 0 ∨ run ≠ 0) := by omega
      refine ⟨[], fun out room _ =>
        ⟨⟨lastCode (codesAt src base) x, raw, run, base + x, out, room⟩, ?_,
          (List.append_nil out).symm, rfl⟩, ?_, fun h => absurd h hpos⟩
      · rw [encodeLoop, Option.bind_some, encodeRest, if_neg hnone]
        rfl
      · have hplace : x - (raw + run) = x := by omega
        rw [hplace]
        exact Codes.nil
  | succ k ih =>
    obtain ⟨code, raw', run', hstep, hpending, hpos, hcodes⟩ := encodeStep_spec h (show x < nWidth by omega)
    obtain ⟨code', hrest, hcodes', hne⟩ := ih hpending (by omega)
    have hcode' : 0 < code'.length := List.length_pos_iff.mpr (hne (by omega))
    refine ⟨code ++ code', fun out room hroom => ?_, hcodes.append hcodes', fun _ hnil => ?_⟩
    · rw [List.length_append] at hroom
      obtain ⟨e, he, hout, hroom'⟩ := hrest (out ++ code) (room - code.length) (by omega)
      refine ⟨e, ?_, ?_, ?_⟩
      · rw [encodeLoop, hstep out room (by omega), Option.bind_some, if_neg (by dsimp only; omega)]
        exact he
      · rw [hout, List.append_assoc]
      · rw [hroom', List.length_append, Nat.sub_sub]
    · exact hne (by omega) (List.append_eq_nil_iff.mp hnil).2

theorem encodeRleBytes_spec (src : ℕ → UInt8) (base : ℕ) {nWidth : ℕ} (hwidth : 0 < nWidth) :
    ∃ code, code ≠ [] ∧ (∀ room, code.length ≤ room →
        encodeRleBytes src base nWidth room = some (code, room - code.length)) ∧
      Codes nWidth (codesAt src base) 0 code nWidth := by
  have hinit : Pending (codesAt src base) 0 0 0 := .of_le le_rfl
  obtain ⟨code, hwrite, hcodes, hne⟩ := encodeLoop_spec nWidth hinit (Nat.zero_add _)
  have hpos : 0 < code.length := List.length_pos_iff.mpr (hne (by omega))
  refine ⟨code, hne (by omega), fun room hroom => ?_, hcodes⟩
  obtain ⟨e, he, hout, hroom'⟩ := hwrite [] room hroom
  have he' : (encodeLoop src nWidth ⟨0, 0, 0, base, [], room⟩).bind
      (fun r => encodeRest src r.1 r.2) = some e := he
  rw [List.nil_append] at hout
  obtain ⟨⟨left, e'⟩, hr, hrest⟩ := Option.bind_eq_some_iff.mp he'
  have hrest : encodeRest src left e' = some e := hrest
  rw [encodeRleBytes, if_neg (by omega), hr, Option.bind_some]
  dsimp only
  rw [hrest, Option.bind_some, hout, if_neg (by omega), hroom']

/-! ### Planes -/

/-- The scanlines of a plane are written one after the other. -/
theorem compressRows_spec (inPlane : ℕ → UInt8) {nWidth : ℕ} (hwidth : 0 < nWidth) (rows base : ℕ) :
    ∃ code, (0 < rows → code ≠ []) ∧ (∀ room, code.length ≤ room →
        compressRows inPlane nWidth rows base room = some code) ∧
      ∀ m p, HoldsAt m p code → ∃ P : ℕ → ℕ, P 0 = p ∧ P rows = p + code.length ∧
        ∀ row < rows, ReflTransGen (Segment m nWidth (codesAt inPlane (base + row * nWidth)))
          (0, P row) (nWidth, P (row + 1)) := by
  induction rows generalizing base with
  | zero =>
    exact ⟨[], fun h => absurd h (Nat.lt_irrefl 0), fun _ _ => rfl, fun _ p _ =>
      ⟨fun _ => p, rfl, rfl, nofun⟩⟩
  | succ rows ih =>
    obtain ⟨code, hne, hwrite, hcodes⟩ := encodeRleBytes_spec inPlane base hwidth
    obtain ⟨code', -, hwrite', hcodes'⟩ := ih (base + nWidth)
    have hpos := List.length_pos_iff.mpr hne
    refine ⟨code ++ code', fun _ hnil => hne (List.append_eq_nil_iff.mp hnil).1, fun room hroom => ?_, ?_⟩
    · rw [List.length_append] at hroom
      rw [compressRows, if_neg (by omega), hwrite room (by omega), Option.bind_some]
      dsimp only
      rw [hwrite' _ (by omega), Option.map_some]
    · intro m p hm
      obtain ⟨hcode, hcode'⟩ := holdsAt_append.mp hm
      obtain ⟨P, hfirst, hlast, hP⟩ := hcodes' m _ hcode'
      refine ⟨fun row => row.casesOn p P, rfl, ?_, fun row hrow => ?_⟩
      · show P rows = _
        rw [hlast, List.length_append, Nat.add_assoc]
      · cases row with
        | zero =>
          rw [Nat.zero_mul, Nat.add_zero]
          show ReflTransGen _ (0, p) (nWidth, P 0)
          rw [hfirst]
          exact hcodes m p hcode
        | succ row =>
          have hbase : base + (row + 1) * nWidth = base + nWidth + row * nWidth := by
            rw [Nat.succ_mul]
            omega
          rw [hbase]
          exact hP row (by omega)

theorem compressPlaneRle_spec (inPlane : ℕ → UInt8) {nWidth nHeight : ℕ} (hwidth : 0 < nWidth)
    (hheight : 0 < nHeight) :
    ∃ code, (∀ dstSize, code.length ≤ dstSize →
        compressPlaneRle inPlane nWidth nHeight dstSize = some code) ∧
      ∀ m, HoldsAt m 0 code →
        Coded m nWidth nHeight (fun row => codesAt inPlane (row * nWidth)) code.length := by
  obtain ⟨code, -, hwrite, hcodes⟩ := compressRows_spec inPlane hwidth nHeight 0
  refine ⟨code, fun dstSize hroom => ?_, fun m hm => ?_⟩
  · rw [compressPlaneRle, Nat.max_eq_left hheight]
    exact hwrite dstSize hroom
  · obtain ⟨P, hfirst, hlast, hP⟩ := hcodes m 0 hm
    rw [Nat.zero_add] at hlast
    refine ⟨P, hfirst, hlast, fun row hrow => ?_⟩
    have hsegs := hP row hrow
    rwa [Nat.zero_add] at hsegs

theorem values_delta (plane : ℕ → UInt8) {nWidth : ℕ} (row : ℕ) (hx : x < nWidth) :
    values (fun row => codesAt (deltaEncodePlane plane nWidth) (row * nWidth)) row x =
      plane (row * nWidth + x) := by
  induction row with
  | zero =>
    rw [values, codesAt, Nat.zero_mul, Nat.zero_add, deltaEncodePlane, if_pos hx]
    exact UInt8.ofNat_toNat
  | succ row ih =>
    have hmul : (row + 1) * nWidth = row * nWidth + nWidth := Nat.succ_mul _ _
    have hprev : (row + 1) * nWidth + x - nWidth = row * nWidth + x := by omega
    rw [values, ih, codesAt, deltaEncodePlane, if_neg (by omega), hprev]
    exact value_deltaCode _ _

/-! ### The round trip -/

/-- A plane is encoded to bytes that are written if there is room for them, and the decoder takes all of
them and gives the plane back. -/
theorem planar_roundTrip (plane : ℕ → UInt8) (width height : ℕ) (hwidth : 1 ≤ width)
    (hheight : 1 ≤ height) (hwidth' : width ≤ INT32_MAX) (hheight' : height ≤ INT32_MAX)
    (hoffset : ∀ y < height, y * width ≤ INT32_MAX) :
    ∃ code, (∀ dstSize, code.length ≤ dstSize →
        compressPlaneRle (deltaEncodePlane plane width) width height dstSize = some code) ∧
      (code.length ≤ INT32_MAX → ∀ m, HoldsAt m 0 code → ∀ dst, ∃ dst',
        (planarDecompressPlaneRleOnly m code.length dst width height).value =
            some (some ((code.length : ℤ), dst')) ∧
          ∀ y < height, ∀ x < width, dst' (planePixel width y x) = plane (y * width + x)) := by
  obtain ⟨code, hwrite, hcoded⟩ := compressPlaneRle_spec (deltaEncodePlane plane width) hwidth hheight
  refine ⟨code, hwrite, fun hlength m hm dst => ?_⟩
  have hlt : code.length < 2 ^ 31 := Nat.lt_of_le_of_lt hlength (by decide)
  obtain ⟨-, dst', hvalue, hvalues⟩ := Target.decode_coded_at (onlyTarget_fits hoffset)
    (fun row hrow x _ => onlyTarget_pixelAt hoffset hrow) (hcoded m hm) hlt dst
  refine ⟨dst', ?_, fun y hy x hx => ?_⟩
  · rw [planarDecompressPlaneRleOnly, if_neg (by omega), hvalue]
  · rw [hvalues y hy x hx]
    exact values_delta plane y hx

/-- Two scanlines of three pixels. -/
def smallPlane : ℕ → UInt8 := fun i => if i = 5 then 9 else 7

theorem compressPlaneRle_smallPlane (room : ℕ) :
    compressPlaneRle (deltaEncodePlane smallPlane 3) 3 2 (room + 8) =
      some [0x30, 7, 7, 7, 0x30, 0, 0, 4] := by
  have hcodes : ∀ i < 6, deltaEncodePlane smallPlane 3 i = [7, 7, 7, 0, 0, 4].getD i 0 := by decide
  have hfirst : ¬ room + 7 < 3 := by omega
  have hsecond : ¬ room + 3 < 3 := by omega
  simp [compressPlaneRle, compressRows, encodeRleBytes, encodeLoop, encodeStep, encodeRest,
    Encoder.flush, writeRleBytes, writeRaw, writeRun, rawSegment, controlByte, Memory.bytesAt, hcodes,
    List.range_succ, hfirst, hsecond]

theorem planar_roundTrip_small :
    compressPlaneRle (deltaEncodePlane smallPlane 3) 3 2 8 = some [0x30, 7, 7, 7, 0x30, 0, 0, 4] ∧
      ∀ m, HoldsAt m 0 [0x30, 7, 7, 7, 0x30, 0, 0, 4] → ∃ dst',
        (planarDecompressPlaneRleOnly m 8 (fun _ => 0) 3 2).value = some (some (((8 : ℕ) : ℤ), dst')) ∧
          ∀ y < 2, ∀ x < 3, dst' (planePixel 3 y x) = smallPlane (y * 3 + x) := by
  obtain ⟨code, hwrite, hdecode⟩ := planar_roundTrip smallPlane 3 2 (by decide) (by decide)
    (by decide) (by decide) (by decide)
  have hcode := hwrite (code.length + 8) (Nat.le_add_right _ _)
  rw [compressPlaneRle_smallPlane] at hcode
  obtain rfl := Option.some.inj hcode
  exact ⟨compressPlaneRle_smallPlane 0, fun m hm => hdecode (by decide) m hm fun _ => 0⟩

/-- A scanline that is longer than an `INT32` counts is encoded but not decoded. -/
theorem not_planar_roundTrip :
    ∃ code, (∀ dstSize, code.length ≤ dstSize →
        compressPlaneRle (deltaEncodePlane (fun _ => 0) (2 ^ 31)) (2 ^ 31) 1 dstSize = some code) ∧
      ∀ m, HoldsAt m 0 code → ∀ dst,
        (planarDecompressPlaneRleOnly m code.length dst (2 ^ 31) 1).value = some none := by
  have hwidth : 0 < 2 ^ 31 := by decide
  obtain ⟨code, hwrite, -⟩ :=
    compressPlaneRle_spec (deltaEncodePlane (fun _ => 0) (2 ^ 31)) hwidth Nat.one_pos
  refine ⟨code, hwrite, fun m _ dst => ?_⟩
  rw [planarDecompressPlaneRleOnly, if_pos (Or.inr (by decide)), value_pure]

end FreeRDP.Planar
