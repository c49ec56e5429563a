import Mathlib.Control.Basic
import Mathlib.Data.Nat.Bitwise

/-!
# Reading back what has been written

A `Reader α` takes bytes from the front of a list, or fails.  `Reads r bs a` says that `r` reads `a` off
`bs` and leaves alone what comes behind.  The rules below follow the shape of a reader, so that the
proof that a reader inverts a writer is a list of the fields.
-/

namespace Wire

/-! ### Readers -/

abbrev Reader (α : Type) : Type := StateT (List UInt8) Option α

def u8 : Reader ℕ := fun s =>
  match s with
  | [] => none
  | b :: s => some (b.toNat, s)

/-- One byte, which is left where it is. -/
def peek : Reader ℕ := fun s =>
  match s with
  | [] => none
  | b :: s => some (b.toNat, b :: s)

/-- Two bytes, the lower one first. -/
def u16le : Reader ℕ := do
  let a ← u8
  let b ← u8
  return a + 2 ^ 8 * b

/-- Two bytes, the higher one first. -/
def u16be : Reader ℕ := do
  let a ← u8
  let b ← u8
  return 2 ^ 8 * a + b

/-- Four bytes, the lowest one first. -/
def u32le : Reader ℕ := do
  let a ← u16le
  let b ← u16le
  return a + 2 ^ 16 * b

/-- Four bytes, the highest one first. -/
def u32be : Reader ℕ := do
  let a ← u16be
  let b ← u16be
  return 2 ^ 16 * a + b

/-- Eight bytes, the lowest one first. -/
def u64le : Reader ℕ := do
  let a ← u32le
  let b ← u32le
  return a + 2 ^ 32 * b

def bytes (n : ℕ) : Reader (List UInt8) := fun s =>
  if n ≤ s.length then some (s.take n, s.drop n) else none

/-- `n` bytes that nobody looks at. -/
def seek (n : ℕ) : Reader Unit := fun s => if n ≤ s.length then some ((), s.drop n) else none

/-- There are `n` bytes. -/
def need (n : ℕ) : Reader Unit := fun s => if n ≤ s.length then some ((), s) else none

/-- A check of what has been read. -/
def check (c : Prop) [Decidable c] : Reader Unit := fun s => if c then some ((), s) else none

/-- `r` is read `n` times. -/
def many {m : Type → Type} [Monad m] {α : Type} (r : m α) : ℕ → m (List α)
  | 0 => return []
  | n + 1 => do
    let a ← r
    let l ← many r n
    return a :: l

/-! ### Writers -/

def byte (n : ℕ) : List UInt8 := [UInt8.ofNat n]

/-- Two bytes, the lower one first. -/
def le16 (n : ℕ) : List UInt8 := [UInt8.ofNat n, UInt8.ofNat (n / 2 ^ 8)]

/-- Two bytes, the higher one first. -/
def be16 (n : ℕ) : List UInt8 := [UInt8.ofNat (n / 2 ^ 8), UInt8.ofNat n]

/-- Four bytes, the lowest one first. -/
def le32 (n : ℕ) : List UInt8 := le16 n ++ le16 (n / 2 ^ 16)

/-- Four bytes, the highest one first. -/
def be32 (n : ℕ) : List UInt8 := be16 (n / 2 ^ 16) ++ be16 n

/-- Eight bytes, the lowest one first. -/
def le64 (n : ℕ) : List UInt8 := le32 n ++ le32 (n / 2 ^ 32)

@[simp] theorem length_byte (n : ℕ) : (byte n).length = 1 := rfl

@[simp] theorem length_le16 (n : ℕ) : (le16 n).length = 2 := rfl

@[simp] theorem length_le32 (n : ℕ) : (le32 n).length = 4 := rfl

@[simp] theorem length_le64 (n : ℕ) : (le64 n).length = 8 := rfl

/-! ### Bits of bytes -/

theorem and_0xFF (n : ℕ) : n &&& 0xFF = n % 2 ^ 8 := Nat.and_two_pow_sub_one_eq_mod n 8

theorem and_0x7F (n : ℕ) : n &&& 0x7F = n % 2 ^ 7 := Nat.and_two_pow_sub_one_eq_mod n 7

theorem and_0x80 (b : UInt8) : b.toNat &&& 0x80 ≠ 0 ↔ 2 ^ 7 ≤ b.toNat := by
  have hlt := b.toNat_lt
  have hbit : b.toNat &&& 0x80 = (b.toNat.testBit 7).toNat * 2 ^ 7 := Nat.and_two_pow b.toNat 7
  rw [hbit, Nat.testBit_eq_decide_div_mod_eq]
  by_cases hge : 2 ^ 7 ≤ b.toNat
  · rw [decide_eq_true (by omega)]
    exact iff_of_true (by decide) hge
  · rw [decide_eq_false (by omega)]
    exact iff_of_false (by decide) hge

/-- A byte behind what has been read before. -/
theorem shiftLeft_or (x : ℕ) {c : ℕ} (hc : c < 2 ^ 8) : x <<< 8 ||| c = x * 2 ^ 8 + c := by
  rw [← Nat.shiftLeft_add_eq_or_of_lt hc, Nat.shiftLeft_eq]

/-- Two bytes behind what has been read before. -/
theorem shiftLeft_or_or (x : ℕ) {c d : ℕ} (hc : c < 2 ^ 8) (hd : d < 2 ^ 8) :
    x <<< 16 ||| c <<< 8 ||| d = (x * 2 ^ 8 + c) * 2 ^ 8 + d := by
  rw [← shiftLeft_or x hc, ← shiftLeft_or _ hd, Nat.shiftLeft_or_distrib, ← Nat.shiftLeft_add]

/-- Three bytes behind what has been read before. -/
theorem shiftLeft_or_or_or (x : ℕ) {c d e : ℕ} (hc : c < 2 ^ 8) (hd : d < 2 ^ 8) (he : e < 2 ^ 8) :
    x <<< 24 ||| c <<< 16 ||| d <<< 8 ||| e = ((x * 2 ^ 8 + c) * 2 ^ 8 + d) * 2 ^ 8 + e := by
  rw [← shiftLeft_or_or x hc hd, ← shiftLeft_or _ he, Nat.shiftLeft_or_distrib,
    Nat.shiftLeft_or_distrib, ← Nat.shiftLeft_add, ← Nat.shiftLeft_add]

/-! ### Reading back -/

variable {α β : Type} {x : Reader α} {f : α → Reader β} {a : α} {b : β} {bs bs' : List UInt8} {n : ℕ}

/-- `x` reads `a` off `bs`. -/
def Reads (x : Reader α) (bs : List UInt8) (a : α) : Prop := ∀ rest, x (bs ++ rest) = some (a, rest)

namespace Reads

theorem pure (a : α) : Reads (Pure.pure a) [] a := fun _ => rfl

theorem bind (hx : Reads x bs a) (hf : Reads (f a) bs' b) : Reads (x >>= f) (bs ++ bs') b := by
  intro rest
  have hstep : (x >>= f) (bs ++ bs' ++ rest) = (x (bs ++ (bs' ++ rest))).bind fun p => f p.1 p.2 := by
    rw [List.append_assoc]
    rfl
  rw [hstep, hx, Option.bind_some]
  exact hf rest

/-- The last step that reads something. -/
theorem last (hx : Reads x bs a) (hf : Reads (f a) [] b) : Reads (x >>= f) bs b := by
  have hbind := hx.bind hf
  rwa [List.append_nil] at hbind

theorem map {g : α → β} (hx : Reads x bs a) (hg : g a = b) :
    Reads (x >>= fun a => Pure.pure (g a)) bs b := hx.last (hg ▸ fun _ => rfl)

/-- The last step of a reader, if it keeps apart what has been read. -/
theorem map_iff {g : α → β} (hg : Function.Injective g) :
    Reads (x >>= fun a => Pure.pure (g a)) bs b ↔ ∃ a, Reads x bs a ∧ g a = b := by
  constructor
  · intro h
    have hstep (rest : List UInt8) : ∃ a, x (bs ++ rest) = some (a, rest) ∧ g a = b := by
      obtain ⟨⟨a, rest'⟩, hx, heq⟩ := Option.bind_eq_some_iff.mp (h rest)
      obtain ⟨hga, rfl⟩ := Prod.mk.inj (Option.some.inj heq)
      exact ⟨a, hx, hga⟩
    obtain ⟨a, -, ha⟩ := hstep []
    refine ⟨a, fun rest => ?_, ha⟩
    obtain ⟨a', hx, ha'⟩ := hstep rest
    rw [hx, hg (ha'.trans ha.symm)]
  · rintro ⟨a, hx, ha⟩
    exact hx.map ha

/-- A step that reads nothing. -/
theorem skip {x : Reader α} {f : α → Reader β} (hx : Reads x [] a) (hf : Reads (f a) bs b) :
    Reads (x >>= f) bs b := hx.bind hf

/-- A byte is read back, whatever number is written into it, and so are the bytes of larger numbers. -/
theorem u8_mod (n : ℕ) : Reads u8 (byte n) (n % 2 ^ 8) := fun rest =>
  congrArg (fun k => some (k, rest)) UInt8.toNat_ofNat'

theorem u16le_mod (n : ℕ) : Reads u16le (le16 n) (n % 2 ^ 16) :=
  (u8_mod n).bind ((u8_mod (n / 2 ^ 8)).map (by omega))

theorem u16be_mod (n : ℕ) : Reads u16be (be16 n) (n % 2 ^ 16) :=
  (u8_mod (n / 2 ^ 8)).bind ((u8_mod n).map (by omega))

theorem u32le_mod (n : ℕ) : Reads u32le (le32 n) (n % 2 ^ 32) :=
  (u16le_mod n).bind ((u16le_mod (n / 2 ^ 16)).map (by omega))

theorem u32be_mod (n : ℕ) : Reads u32be (be32 n) (n % 2 ^ 32) :=
  (u16be_mod (n / 2 ^ 16)).bind ((u16be_mod n).map (by omega))

theorem u64le_mod (n : ℕ) : Reads u64le (le64 n) (n % 2 ^ 64) :=
  (u32le_mod n).bind ((u32le_mod (n / 2 ^ 32)).map (by omega))

theorem u8 (hn : n < 2 ^ 8) : Reads u8 (byte n) n := by
  have h := u8_mod n
  rwa [Nat.mod_eq_of_lt hn] at h

theorem u16le (hn : n < 2 ^ 16) : Reads u16le (le16 n) n := by
  have h := u16le_mod n
  rwa [Nat.mod_eq_of_lt hn] at h

theorem u16be (hn : n < 2 ^ 16) : Reads u16be (be16 n) n := by
  have h := u16be_mod n
  rwa [Nat.mod_eq_of_lt hn] at h

theorem u32le (hn : n < 2 ^ 32) : Reads u32le (le32 n) n := by
  have h := u32le_mod n
  rwa [Nat.mod_eq_of_lt hn] at h

theorem u32be (hn : n < 2 ^ 32) : Reads u32be (be32 n) n := by
  have h := u32be_mod n
  rwa [Nat.mod_eq_of_lt hn] at h

theorem u64le (hn : n < 2 ^ 64) : Reads u64le (le64 n) n := by
  have h := u64le_mod n
  rwa [Nat.mod_eq_of_lt hn] at h

theorem bytes (hn : bs.length = n) : Reads (bytes n) bs bs := by
  intro rest
  have hle : n ≤ (bs ++ rest).length := by
    rw [List.length_append]
    omega
  rw [Wire.bytes, if_pos hle, List.take_left' hn, List.drop_left' hn]

theorem seek (hn : bs.length = n) : Reads (seek n) bs () := by
  intro rest
  have hle : n ≤ (bs ++ rest).length := by
    rw [List.length_append]
    omega
  rw [Wire.seek, if_pos hle, List.drop_left' hn]

/-- A byte of padding. -/
theorem seek_byte (n : ℕ) : Reads (Wire.seek 1) (byte n) () := seek rfl

/-- A check that there are enough bytes, in front of a reader that reads as many. -/
theorem need {x : Unit → Reader α} (hn : n ≤ bs.length) (hx : Reads (x ()) bs a) :
    Reads (need n >>= x) bs a := by
  intro rest
  have hle : n ≤ (bs ++ rest).length := by
    rw [List.length_append]
    omega
  have hstep : (Wire.need n >>= x) (bs ++ rest) =
      (if n ≤ (bs ++ rest).length then some ((), bs ++ rest) else none).bind fun p => x p.1 p.2 := rfl
  rw [hstep, if_pos hle, Option.bind_some]
  exact hx rest

/-- A list is read element by element. -/
theorem many {r : Reader α} {write : α → List UInt8} {l : List α}
    (h : ∀ a ∈ l, Reads r (write a) a) : Reads (many r l.length) (l.flatMap write) l := by
  induction l with
  | nil => exact pure []
  | cons a l ih =>
    have hrest := ih fun a ha => h a (List.mem_cons_of_mem _ ha)
    exact (h a List.mem_cons_self).bind (hrest.map rfl)

theorem check {c : Prop} [Decidable c] (hc : c) : Reads (check c) [] () := fun _ => if_pos hc

end Reads

/-! ### Readers step by step -/

theorem bind_apply (x : Reader α) (f : α → Reader β) (s : List UInt8) :
    (x >>= f) s = (x s).bind fun p => f p.1 p.2 := rfl

theorem pure_apply (a : α) (s : List UInt8) : (pure a : Reader α) s = some (a, s) := rfl

theorem need_apply {s : List UInt8} (h : n ≤ s.length) : need n s = some ((), s) := if_pos h

/-- A byte is read, whatever number is written into it. -/
theorem u8_byte (n : ℕ) (s : List UInt8) : u8 (byte n ++ s) = some (n % 2 ^ 8, s) := by
  simp [u8, byte]

theorem need_bind_of_le {s : List UInt8} (h : n ≤ s.length) (f : Unit → Reader α) :
    (need n >>= f) s = f () s := by
  rw [bind_apply, need_apply h, Option.bind_some]

theorem u8_byte_bind (n : ℕ) (f : ℕ → Reader α) (s : List UInt8) :
    (u8 >>= f) (byte n ++ s) = f (n % 2 ^ 8) s := by
  rw [bind_apply, u8_byte, Option.bind_some]

/-! ### Readers of a fixed number of bytes -/

/-- `x` reads any `n` bytes. -/
def Takes (n : ℕ) (x : Reader α) : Prop := ∀ bs : List UInt8, bs.length = n → ∃ a, Reads x bs a

namespace Takes

variable {m : ℕ}

theorem pure (a : α) : Takes 0 (Pure.pure a : Reader α) := by
  intro bs hbs
  obtain rfl := List.eq_nil_of_length_eq_zero hbs
  exact ⟨a, Reads.pure a⟩

theorem bind (hx : Takes n x) (hf : ∀ a, Takes m (f a)) : Takes (n + m) (x >>= f) := by
  intro bs hbs
  have hlength : (bs.take n).length = n := List.length_take_of_le (by omega)
  obtain ⟨a, ha⟩ := hx _ hlength
  obtain ⟨b, hb⟩ := hf a (bs.drop n) (by rw [List.length_drop]; omega)
  refine ⟨b, ?_⟩
  have hreads := ha.bind hb
  rwa [List.take_append_drop] at hreads

theorem map (hx : Takes n x) (g : α → β) : Takes n (x >>= fun a => Pure.pure (g a)) :=
  hx.bind fun a => pure (g a)

theorem u8 : Takes 1 u8 := by
  intro bs hbs
  obtain ⟨b, rfl⟩ := List.length_eq_one_iff.mp hbs
  exact ⟨b.toNat, fun rest => rfl⟩

theorem u16le : Takes 2 u16le := u8.bind fun _ => u8.map _

theorem u32le : Takes 4 u32le := u16le.bind fun _ => u16le.map _

/-- A check that there are the bytes that are going to be read. -/
theorem need {x : Unit → Reader α} (hx : Takes n (x ())) : Takes n (need n >>= x) := by
  intro bs hbs
  obtain ⟨a, ha⟩ := hx bs hbs
  exact ⟨a, Reads.need hbs.ge ha⟩

end Takes

/-! ### Readers that leave over what they do not need -/

/-- More bytes behind those that `x` has been given are left over. -/
def Extends (x : Reader α) : Prop :=
  ∀ bs a rest more, x bs = some (a, rest) → x (bs ++ more) = some (a, rest ++ more)

namespace Extends

theorem pure (a : α) : Extends (Pure.pure a : Reader α) := by
  rintro bs _ _ more ⟨⟩
  rfl

theorem bind (hx : Extends x) (hf : ∀ a, Extends (f a)) : Extends (x >>= f) := by
  intro bs b rest more h
  have hstep (bs : List UInt8) : (x >>= f) bs = (x bs).bind fun p => f p.1 p.2 := rfl
  rw [hstep] at h ⊢
  obtain ⟨⟨a, rest'⟩, hxa, hfb⟩ := Option.bind_eq_some_iff.mp h
  rw [hx bs a rest' more hxa]
  exact hf a rest' b rest more hfb

theorem ite {c : Prop} [Decidable c] {y : Reader α} (hx : Extends x) (hy : Extends y) :
    Extends (if c then x else y) := by
  split
  · exact hx
  · exact hy

theorem u8 : Extends u8 := by
  rintro (_ | ⟨b, bs⟩) a rest more h
  · exact nomatch h
  · obtain ⟨rfl, rfl⟩ := Prod.mk.inj (Option.some.inj h)
    rfl

theorem u16le : Extends u16le := u8.bind fun _ => u8.bind fun _ => pure _

theorem need (n : ℕ) : Extends (need n) := by
  intro bs a rest more h
  unfold Wire.need at h ⊢
  split at h
  · obtain ⟨rfl, rfl⟩ := Prod.mk.inj (Option.some.inj h)
    rw [if_pos (by rw [List.length_append]; omega)]
  · exact nomatch h

theorem bytes (n : ℕ) : Extends (bytes n) := by
  intro bs a rest more h
  unfold Wire.bytes at h ⊢
  split at h
  · obtain ⟨rfl, rfl⟩ := Prod.mk.inj (Option.some.inj h)
    rw [if_pos (by rw [List.length_append]; omega), List.take_append_of_le_length (by omega),
      List.drop_append_of_le_length (by omega)]
  · exact nomatch h

theorem check (c : Prop) [Decidable c] : Extends (check c) := by
  intro bs a rest more h
  unfold Wire.check at h ⊢
  split at h
  · obtain ⟨rfl, rfl⟩ := Prod.mk.inj (Option.some.inj h)
    rw [if_pos (by assumption)]
  · exact nomatch h

end Extends

/-! ### Readers that go forward -/

theorem check_eq_some {c : Prop} [Decidable c] {s s' : List UInt8} {u : Unit}
    (h : check c s = some (u, s')) :
    s = s' := by
  unfold check at h
  split at h
  · exact (Prod.mk.inj (Option.some.inj h)).2
  · exact nomatch h

theorem need_eq_some {s s' : List UInt8} {u : Unit} (h : need n s = some (u, s')) : s = s' := by
  unfold need at h
  split at h
  · exact (Prod.mk.inj (Option.some.inj h)).2
  · exact nomatch h

/-- What `x` leaves over is the end of what it has been given. -/
def Advances (x : Reader α) : Prop := ∀ bs a rest, x bs = some (a, rest) → rest <:+ bs

namespace Advances

theorem pure (a : α) : Advances (Pure.pure a : Reader α) := by
  rintro bs _ _ ⟨⟩
  exact List.suffix_refl _

theorem bind (hx : Advances x) (hf : ∀ a, Advances (f a)) : Advances (x >>= f) := by
  intro bs b rest h
  obtain ⟨⟨a, rest'⟩, hxa, hfb⟩ := Option.bind_eq_some_iff.mp h
  exact (hf a rest' b rest hfb).trans (hx bs a rest' hxa)

theorem ite {c : Prop} [Decidable c] {y : Reader α} (hx : Advances x) (hy : Advances y) :
    Advances (if c then x else y) := by
  split
  · exact hx
  · exact hy

theorem u8 : Advances u8 := by
  rintro (_ | ⟨b, bs⟩) a rest h
  · exact nomatch h
  · obtain ⟨rfl, rfl⟩ := Prod.mk.inj (Option.some.inj h)
    exact List.suffix_cons b bs

theorem u16le : Advances u16le := u8.bind fun _ => u8.bind fun _ => pure _

theorem u32le : Advances u32le := u16le.bind fun _ => u16le.bind fun _ => pure _

theorem need (n : ℕ) : Advances (need n) := by
  intro bs a rest h
  obtain rfl := need_eq_some h
  exact List.suffix_refl _

theorem bytes (n : ℕ) : Advances (bytes n) := by
  intro bs a rest h
  unfold Wire.bytes at h
  split at h
  · obtain ⟨rfl, rfl⟩ := Prod.mk.inj (Option.some.inj h)
    exact List.drop_suffix n bs
  · exact nomatch h

theorem seek (n : ℕ) : Advances (seek n) := by
  intro bs a rest h
  unfold Wire.seek at h
  split at h
  · obtain ⟨rfl, rfl⟩ := Prod.mk.inj (Option.some.inj h)
    exact List.drop_suffix n bs
  · exact nomatch h

theorem check (c : Prop) [Decidable c] : Advances (check c) := by
  intro bs a rest h
  obtain rfl := check_eq_some h
  exact List.suffix_refl _

theorem many (hx : Advances x) (n : ℕ) : Advances (many x n) := by
  induction n with
  | zero => exact pure []
  | succ n ih => exact hx.bind fun _ => ih.bind fun _ => pure _

/-- A value that may not be there. -/
theorem ofOption (o : Option α) : Advances (fun s => o.map (·, s)) := by
  intro bs a rest h
  obtain ⟨b, -, heq⟩ := Option.map_eq_some_iff.mp h
  obtain ⟨rfl, rfl⟩ := Prod.mk.inj heq
  exact List.suffix_refl _

end Advances

/-! ### Readers that go forward by a number of bytes -/

/-- `x` takes `n` bytes whenever it reads something. -/
def Consumes (n : ℕ) (x : Reader α) : Prop :=
  ∀ bs a rest, x bs = some (a, rest) → bs.length = rest.length + n

namespace Consumes

variable {m : ℕ}

theorem pure (a : α) : Consumes 0 (Pure.pure a : Reader α) := by
  rintro bs _ _ ⟨⟩
  rfl

theorem bind (hx : Consumes n x) (hf : ∀ a, Consumes m (f a)) : Consumes (n + m) (x >>= f) := by
  intro bs b rest h
  obtain ⟨⟨a, rest'⟩, hxa, hfb⟩ := Option.bind_eq_some_iff.mp h
  have hfirst := hx bs a rest' hxa
  have hrest := hf a rest' b rest hfb
  omega

theorem u8 : Consumes 1 u8 := by
  rintro (_ | ⟨b, bs⟩) a rest h
  · exact absurd h (Option.some_ne_none _).symm
  · obtain ⟨rfl, rfl⟩ := Prod.mk.inj (Option.some.inj h)
    rfl

theorem u16le : Consumes 2 u16le := u8.bind fun _ => u8.bind fun _ => pure _

theorem seek (n : ℕ) : Consumes n (seek n) := by
  intro bs a rest h
  unfold Wire.seek at h
  split at h
  · obtain ⟨rfl, rfl⟩ := Prod.mk.inj (Option.some.inj h)
    rw [List.length_drop]
    omega
  · exact absurd h (Option.some_ne_none _).symm

/-- A check that there are enough bytes takes none. -/
theorem need {x : Unit → Reader α} (m : ℕ) (hx : Consumes n (x ())) :
    Consumes n (need m >>= x) := by
  intro bs a rest h
  obtain ⟨⟨u, rest'⟩, hneed, hfb⟩ := Option.bind_eq_some_iff.mp h
  obtain rfl := need_eq_some hneed
  exact hx _ _ _ hfb

/-- What is read behind a check may depend on it. -/
theorem check {c : Prop} [Decidable c] {x : Unit → Reader α} (hx : c → Consumes n (x ())) :
    Consumes n (check c >>= x) := by
  intro bs a rest h
  obtain ⟨⟨u, rest'⟩, hcheck, hfb⟩ := Option.bind_eq_some_iff.mp h
  have hc : c := by
    by_contra hc
    rw [Wire.check, if_neg hc] at hcheck
    exact absurd hcheck (Option.some_ne_none _).symm
  obtain rfl := check_eq_some hcheck
  exact hx hc _ _ _ hfb

theorem many (hx : Consumes n x) (k : ℕ) : Consumes (k * n) (many x k) := by
  induction k with
  | zero => exact (Nat.zero_mul n).symm ▸ pure []
  | succ k ih =>
    have hcount : (k + 1) * n = n + (k * n + 0) := by
      rw [Nat.succ_mul, Nat.add_comm, Nat.add_zero]
    rw [hcount]
    exact hx.bind fun _ => ih.bind fun _ => pure _

end Consumes

/-! ### What readers give -/

/-- Whatever `x` reads has the property `P`. -/
def Yields (P : α → Prop) (x : Reader α) : Prop := ∀ bs a rest, x bs = some (a, rest) → P a

namespace Yields

variable {P : β → Prop}

theorem pure (h : P b) : Yields P (Pure.pure b) := by
  rintro bs _ _ ⟨⟩
  exact h

/-- The last step of a reader decides what it gives. -/
theorem bind (hf : ∀ a, Yields P (f a)) : Yields P (x >>= f) := by
  intro bs b rest h
  obtain ⟨⟨a, rest'⟩, -, hfb⟩ := Option.bind_eq_some_iff.mp h
  exact hf a rest' b rest hfb

end Yields

end Wire
