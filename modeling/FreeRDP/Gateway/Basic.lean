import FreeRDP.Core.Transport
import FreeRDP.Lib.Source

/-!
# Reading from the gateway

What the readers of `rdg.c` of `libfreerdp/core/gateway` share.  The network is a list of what it
delivers, as in `Core.Transport`: an empty element is a time at which there is nothing to read, and then
`BIO_read` returns -1 and `BIO_should_retry` holds.  The connection does not fail, and there is memory
for the streams.
-/

namespace FreeRDP.Gateway

def intMax : ℕ := 0x7FFFFFFF

/-- The size of a buffer is positive, and fits the `int` in which its use is returned. -/
def IsBufferSize (size : ℕ) : Prop := 0 < size ∧ size ≤ intMax

instance (size : ℕ) : Decidable (IsBufferSize size) := inferInstanceAs (Decidable (_ ∧ _))

/-- `BIO_read`: `none` is -1, and otherwise the status is the number of bytes.  The length is converted
to an `int`; there is nothing to do unless it is positive. -/
def bioRead (len : ℕ) (net : List (List UInt8)) : Option (List UInt8) × List (List UInt8) :=
  let dlen := len % 2 ^ 32
  if dlen = 0 ∨ dlen > intMax then (some [], net) else Core.bioRead dlen net

/-- A function such as `BIO_read`. -/
abbrev BioRead := ℕ → List (List UInt8) → Option (List UInt8) × List (List UInt8)

/-- Why a read does not come to a normal end: an assertion fails, a null pointer is dereferenced, the
loop goes on forever, or -1 is returned while the connection has not failed. -/
inductive ReadFault
  | assertion
  | nullPointer
  | endless
  | refused
deriving DecidableEq, Repr

/-- What a read returns: `none` is -1 when it should be tried again, and otherwise the status is the
number of bytes that are in the buffer. -/
abbrev ReadStatus := Except ReadFault (Option (List UInt8))

/-- `effectiveDataLen > 0 ? effectiveDataLen : status`. -/
def effective (data : List UInt8) (status : Option (List UInt8)) : ReadStatus :=
  .ok (if data.length > 0 then some data else status)

/-- The bytes that are in the buffer. -/
def ReadStatus.data : ReadStatus → List UInt8
  | .ok (some data) => data
  | _ => []

/-- The read has come to a normal end. -/
def ReadStatus.Fine (r : ReadStatus) : Prop := ∃ status, r = .ok status

theorem effective_fine (data : List UInt8) (status : Option (List UInt8)) : (effective data status).Fine :=
  ⟨_, rfl⟩

theorem data_effective (data : List UInt8) : (effective data none).data = data := by
  unfold effective
  cases data with
  | nil => rfl
  | cons byte data => rfl

theorem effective_append {data : List UInt8} (hne : data ≠ []) (buffer : List UInt8) :
    effective (buffer ++ data) none = .ok (some (buffer ++ data)) := by
  have hpos := List.length_pos_iff.mpr hne
  rw [effective, if_pos (by rw [List.length_append]; omega)]

/-- What is left of the network: its bytes, and the times at which it delivers. -/
def netSize (net : List (List UInt8)) : ℕ := net.flatten.length + net.length

variable {net : List (List UInt8)} {len : ℕ}

theorem netSize_eq_zero (h : netSize net = 0) : net = [] :=
  List.length_eq_zero_iff.mp (Nat.eq_zero_of_add_eq_zero_left h)

/-- What `BIO_read` does with a length that is converted to a positive one: it passes a pause, or it takes
bytes. -/
theorem bioRead_cases_mod (hlen : IsBufferSize (len % 2 ^ 32)) (net : List (List UInt8)) :
    (∃ net', bioRead len net = (none, net') ∧ net'.flatten = net.flatten ∧ netSize net' ≤ netSize net - 1) ∨
      ∃ data net', bioRead len net = (some data, net') ∧ data ≠ [] ∧ data.length ≤ len % 2 ^ 32 ∧
        net.flatten = data ++ net'.flatten ∧ netSize net' ≤ netSize net - 1 := by
  obtain ⟨hpos, hle⟩ := hlen
  unfold bioRead
  dsimp only
  generalize len % 2 ^ 32 = dlen at hpos hle ⊢
  rw [if_neg (by omega)]
  match net with
  | [] => exact .inl ⟨[], rfl, rfl, by simp [netSize]⟩
  | [] :: net =>
    refine .inl ⟨net, rfl, rfl, ?_⟩
    simp only [netSize, List.flatten_cons, List.nil_append, List.length_cons]
    omega
  | (byte :: data) :: net =>
    refine .inr ?_
    by_cases hdata : (byte :: data).length ≤ dlen
    · refine ⟨byte :: data, net, if_pos hdata, List.cons_ne_nil _ _, hdata, rfl, ?_⟩
      simp only [netSize, List.flatten_cons, List.length_append, List.length_cons]
      omega
    · refine ⟨(byte :: data).take dlen, (byte :: data).drop dlen :: net, if_neg hdata, ?_, ?_, ?_, ?_⟩
      · exact List.ne_nil_of_length_pos (by rw [List.length_take]; omega)
      · exact List.length_take_le _ _
      · rw [List.flatten_cons, List.flatten_cons, ← List.append_assoc, List.take_append_drop]
      · simp only [netSize, List.flatten_cons, List.length_append, List.length_drop,
          List.length_cons] at hdata ⊢
        omega

theorem IsBufferSize.mod (hlen : IsBufferSize len) : len % 2 ^ 32 = len := by
  obtain ⟨-, hle⟩ := hlen
  unfold intMax at hle
  exact Nat.mod_eq_of_lt (by omega)

theorem bioRead_cases (hlen : IsBufferSize len) (net : List (List UInt8)) :
    (∃ net', bioRead len net = (none, net') ∧ net'.flatten = net.flatten ∧ netSize net' ≤ netSize net - 1) ∨
      ∃ data net', bioRead len net = (some data, net') ∧ data ≠ [] ∧ data.length ≤ len ∧
        net.flatten = data ++ net'.flatten ∧ netSize net' ≤ netSize net - 1 := by
  have hcases := bioRead_cases_mod (by rwa [hlen.mod] : IsBufferSize (len % 2 ^ 32)) net
  rwa [hlen.mod] at hcases

end FreeRDP.Gateway
