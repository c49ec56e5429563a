import FreeRDP.Lib.Wire

/-!
# Messages that leave out fields

A decoder is a list of parts.  A part reads a field of the message and assigns to cells of a memory
that is kept from message to message; if the message leaves its field out, the part does nothing.  A
part without a field reads nothing and is never left out.

`fill_agree` compares a message with the one in which fields that were left out are sent once more: the
decoder gives the same memory, up to cells that no later part looks at, if each of these fields is
`Absorbed` when its turn comes.
-/

open Wire

namespace Retain

variable {κ V : Type} [DecidableEq κ]

/-! ### Assignments -/

/-- The memory behind the assignments `ws`. -/
def write : List (κ × V) → (κ → V) → κ → V
  | [], s => s
  | w :: ws, s => write ws (Function.update s w.1 w.2)

variable {ws : List (κ × V)} {s s' t t' : κ → V} {k : κ}

@[simp] theorem write_nil (s : κ → V) : write [] s = s := rfl

@[simp] theorem write_cons (w : κ × V) (ws : List (κ × V)) (s : κ → V) :
    write (w :: ws) s = write ws (Function.update s w.1 w.2) := rfl

theorem write_append (ws ws' : List (κ × V)) (s : κ → V) :
    write (ws ++ ws') s = write ws' (write ws s) := by
  induction ws generalizing s with
  | nil => rfl
  | cons w ws ih => exact ih _

/-- A cell depends on what it has held and on the assignments alone. -/
theorem write_congr (h : s k = t k) : write ws s k = write ws t k := by
  induction ws generalizing s t with
  | nil => exact h
  | cons w ws ih =>
    rw [write_cons, write_cons]
    refine ih ?_
    by_cases hk : k = w.1
    · rw [hk, Function.update_self, Function.update_self]
    · rw [Function.update_of_ne hk, Function.update_of_ne hk, h]

theorem write_of_ne (h : ∀ w ∈ ws, w.1 ≠ k) : write ws s k = s k := by
  induction ws generalizing s with
  | nil => rfl
  | cons w ws ih =>
    rw [write_cons, ih fun w hw => h w (List.mem_cons_of_mem _ hw),
      Function.update_of_ne (h w List.mem_cons_self).symm]

/-- A cell that is assigned to forgets what it has held. -/
theorem write_of_mem (h : ∃ w ∈ ws, w.1 = k) : write ws s k = write ws t k := by
  induction ws generalizing s t with
  | nil => simp at h
  | cons w ws ih =>
    rw [write_cons, write_cons]
    by_cases hw : w.1 = k
    · refine write_congr ?_
      rw [← hw, Function.update_self, Function.update_self]
    · refine ih ?_
      obtain ⟨w', hw', rfl⟩ := h
      obtain rfl | hmem := List.mem_cons.mp hw'
      · exact absurd rfl hw
      · exact ⟨w', hmem, rfl⟩

theorem write_write (ws : List (κ × V)) (s : κ → V) : write ws (write ws s) = write ws s := by
  funext k
  by_cases h : ∃ w ∈ ws, w.1 = k
  · exact write_of_mem h
  · exact write_of_ne fun w hw hk => h ⟨w, hw, hk⟩

/-! ### Parts -/

/-- A part of a decoder: the number of its field, and the assignments that it reads. -/
structure Part (κ V : Type) where
  field : Option ℕ
  read : (κ → V) → Reader (List (κ × V))

namespace Part

/-- The part reads and assigns. -/
def run (p : Part κ V) (s : κ → V) : Reader (κ → V) := do
  let ws ← p.read s
  return write ws s

/-- The part reads exactly the bytes `c`. -/
def take (p : Part κ V) (c : List UInt8) (s : κ → V) : Option (κ → V) :=
  match p.read s c with
  | some (ws, []) => some (write ws s)
  | _ => none

/-- Reading `c` changes nothing. -/
def Absorbs (p : Part κ V) (c : List UInt8) (s : κ → V) : Prop := p.take c s = some s

/-- The part assigns to cells in `W` alone. -/
def Writes (p : Part κ V) (W : κ → Prop) : Prop :=
  ∀ s c ws rest, p.read s c = some (ws, rest) → ∀ w ∈ ws, W w.1

/-- What the part reads does not depend on the cells in `X`. -/
def Ignores (p : Part κ V) (X : κ → Prop) : Prop :=
  ∀ s t, (∀ k, ¬ X k → s k = t k) → p.read s = p.read t

variable {p : Part κ V} {c : List UInt8} {W X : κ → Prop}

theorem take_eq_some : p.take c s = some s' ↔ ∃ ws, p.read s c = some (ws, []) ∧ write ws s = s' := by
  unfold take
  constructor
  · intro h
    split at h
    · exact ⟨_, by assumption, Option.some.inj h⟩
    · exact nomatch h
  · rintro ⟨ws, hread, rfl⟩
    rw [hread]

theorem take_of_reads {ws : List (κ × V)} (h : Reads (p.read s) c ws) :
    p.take c s = some (write ws s) := by
  have hnil := h []
  rw [List.append_nil] at hnil
  exact take_eq_some.mpr ⟨ws, hnil, rfl⟩

/-- Cells that the part does not assign to are kept. -/
theorem Writes.frame (hW : p.Writes W) (h : p.take c s = some s') (hk : ¬ W k) : s' k = s k := by
  obtain ⟨ws, hread, rfl⟩ := take_eq_some.mp h
  exact write_of_ne fun w hw heq => hk (heq ▸ hW s c ws [] hread w hw)

/-- Whether `c` is absorbed depends on the cells that the part looks at and assigns to. -/
theorem Absorbs.congr (h : p.Absorbs c s) (hW : p.Writes W) (hX : p.Ignores X)
    (heq : ∀ k, W k ∨ ¬ X k → s k = t k) : p.Absorbs c t := by
  obtain ⟨ws, hread, hwrite⟩ := take_eq_some.mp h
  have hsame : p.read s = p.read t := hX s t fun k hk => heq k (Or.inr hk)
  refine take_eq_some.mpr ⟨ws, hsame ▸ hread, ?_⟩
  funext k
  by_cases hk : W k
  · rw [← write_congr (heq k (Or.inl hk)), hwrite, heq k (Or.inl hk)]
  · exact write_of_ne fun w hw hwk => hk (hwk ▸ hW s c ws [] hread w hw)

/-- A part that ignores what it assigns to absorbs what it has read. -/
theorem absorbs_of_take (hW : p.Writes W) (hX : p.Ignores W) (h : p.take c s = some s') :
    p.Absorbs c s' := by
  obtain ⟨ws, hread, rfl⟩ := take_eq_some.mp h
  have hsame : p.read s = p.read (write ws s) := by
    refine hX _ _ fun k hk => Eq.symm ?_
    exact write_of_ne fun w hw heq => hk (heq ▸ hW s c ws [] hread w hw)
  exact take_eq_some.mpr ⟨ws, hsame ▸ hread, write_write ws s⟩

end Part

/-! ### Decoders -/

/-- The parts of a decoder in turn; `has` are the fields that the message has. -/
def decode (has : ℕ → Bool) : List (Part κ V) → (κ → V) → Reader (κ → V)
  | [], s => return s
  | p :: ps, s => do
    let s ← (if p.field.all has then p.run s else return s : Reader (κ → V))
    decode has ps s

def Part.chunk (field : ℕ → List UInt8) (p : Part κ V) : List UInt8 := p.field.elim [] field

def bytesOf (has : ℕ → Bool) (field : ℕ → List UInt8) : List (Part κ V) → List UInt8
  | [] => []
  | p :: ps => (if p.field.all has then p.chunk field else []) ++ bytesOf has field ps

/-- The memory behind a message, each part of which reads exactly the bytes of its own. -/
def decodeFields (has : ℕ → Bool) (field : ℕ → List UInt8) :
    List (Part κ V) → (κ → V) → Option (κ → V)
  | [], s => some s
  | p :: ps, s =>
    (if p.field.all has then p.take (p.chunk field) s else some s).bind (decodeFields has field ps)

variable {has : ℕ → Bool} {field : ℕ → List UInt8} {p : Part κ V} {ps qs : List (Part κ V)}

theorem decodeFields_cons :
    decodeFields has field (p :: ps) s =
      (if p.field.all has then p.take (p.chunk field) s else some s).bind
        (decodeFields has field ps) := rfl

theorem decodeFields_append :
    decodeFields has field (ps ++ qs) s =
      (decodeFields has field ps s).bind (decodeFields has field qs) := by
  induction ps generalizing s with
  | nil => rfl
  | cons p ps ih =>
    rw [List.cons_append, decodeFields_cons, decodeFields_cons, Option.bind_assoc]
    exact Option.bind_congr fun s' _ => ih

/-- Fields that no part reads do not matter. -/
theorem decodeFields_congr {has' : ℕ → Bool}
    (h : ∀ p ∈ ps, p.field.all has = p.field.all has') (s : κ → V) :
    decodeFields has field ps s = decodeFields has' field ps s := by
  induction ps generalizing s with
  | nil => rfl
  | cons p ps ih =>
    rw [decodeFields_cons, decodeFields_cons, h p List.mem_cons_self]
    exact Option.bind_congr fun s' _ => ih (fun q hq => h q (List.mem_cons_of_mem _ hq)) s'

/-- What holds of a memory and is kept by each part of a message holds behind the message. -/
theorem decodeFields_keeps {Q : (κ → V) → Prop}
    (h : ∀ p ∈ ps, p.field.all has = true → ∀ s s', p.take (p.chunk field) s = some s' → Q s → Q s')
    (hs : Q s) (hdecode : decodeFields has field ps s = some s') : Q s' := by
  induction ps generalizing s with
  | nil => exact Option.some.inj hdecode ▸ hs
  | cons p ps ih =>
    rw [decodeFields_cons] at hdecode
    obtain ⟨s₁, hhead, htail⟩ := Option.bind_eq_some_iff.mp hdecode
    refine ih (fun q hq => h q (List.mem_cons_of_mem _ hq)) ?_ htail
    by_cases hhas : p.field.all has = true
    · rw [if_pos hhas] at hhead
      exact h p List.mem_cons_self hhas s s₁ hhead hs
    · rw [if_neg hhas] at hhead
      exact Option.some.inj hhead ▸ hs

/-! ### Messages as bytes -/

namespace Part

/-- The part reads `c` whatever comes behind it, or fails whatever comes behind it. -/
def Exact (p : Part κ V) (c : List UInt8) : Prop :=
  ∀ s, ∃ found : Option (List (κ × V)), ∀ rest, p.read s (c ++ rest) = found.map fun ws => (ws, rest)

/-- More bytes behind those that the part needs are left over. -/
def Extends (p : Part κ V) : Prop := ∀ s, Wire.Extends (p.read s)

omit [DecidableEq κ] in
theorem exact_of_takes {n : ℕ} {c : List UInt8} (h : ∀ s, Takes n (p.read s)) (hc : c.length = n) :
    p.Exact c := by
  intro s
  obtain ⟨ws, hws⟩ := h s c hc
  exact ⟨some ws, hws⟩

theorem Exact.take {c : List UInt8} (h : p.Exact c) (s : κ → V) (rest : List UInt8) :
    p.run s (c ++ rest) = (p.take c s).map fun s' => (s', rest) := by
  obtain ⟨found, hfound⟩ := h s
  have hrun : p.run s (c ++ rest) =
      (p.read s (c ++ rest)).bind fun r => some (write r.1 s, r.2) := rfl
  have hnil := hfound []
  rw [List.append_nil] at hnil
  rw [hrun, hfound, Part.take, hnil]
  cases found <;> rfl

end Part

/-- The parts of a message read exactly the bytes of their own; but for the last one with a field,
they do so whatever comes behind. -/
def Framed (has : ℕ → Bool) (field : ℕ → List UInt8) : List (Part κ V) → Prop
  | [] => True
  | p :: ps =>
    (p.field.all has = true → p.Exact (p.chunk field) ∨
      p.Extends ∧ ∀ q ∈ ps, q.field = none ∧ q.Exact []) ∧ Framed has field ps

omit [DecidableEq κ] in
theorem bytesOf_of_none (has : ℕ → Bool) (field : ℕ → List UInt8) (h : ∀ q ∈ ps, q.field = none) :
    bytesOf has field ps = [] := by
  induction ps with
  | nil => rfl
  | cons p ps ih =>
    rw [bytesOf, ih fun q hq => h q (List.mem_cons_of_mem _ hq), Part.chunk, h p List.mem_cons_self]
    rfl

/-- Parts without fields read nothing. -/
theorem decode_of_none (field : ℕ → List UInt8) (h : ∀ q ∈ ps, q.field = none ∧ q.Exact [])
    (s : κ → V) (bs : List UInt8) :
    decode has ps s bs = (decodeFields has field ps s).map fun s' => (s', bs) := by
  induction ps generalizing s with
  | nil => rfl
  | cons p ps ih =>
    obtain ⟨hnone, hexact⟩ := h p List.mem_cons_self
    have hhas : p.field.all has = true := by rw [hnone]; rfl
    have hchunk : p.chunk field = [] := by rw [Part.chunk, hnone]; rfl
    have hstep : decode has (p :: ps) s bs = (p.run s bs).bind fun r => decode has ps r.1 r.2 := by
      rw [decode, if_pos hhas]
      rfl
    rw [hstep, decodeFields_cons, if_pos hhas, hchunk, ← List.nil_append bs, hexact.take s bs]
    cases p.take [] s with
    | none => rfl
    | some s₁ => exact ih (fun q hq => h q (List.mem_cons_of_mem _ hq)) s₁

/-- A message is read just if its parts are. -/
theorem reads_decode_iff (h : Framed has field ps) :
    Reads (decode has ps s) (bytesOf has field ps) s' ↔ decodeFields has field ps s = some s' := by
  induction ps generalizing s with
  | nil =>
    constructor
    · intro hreads
      exact congrArg (Option.map Prod.fst) (hreads [])
    · intro hdecode
      exact Option.some.inj hdecode ▸ Reads.pure s
  | cons p ps ih =>
    obtain ⟨hhead, htail⟩ := h
    rw [decodeFields_cons, bytesOf]
    by_cases hhas : p.field.all has = true
    · rw [if_pos hhas, if_pos hhas]
      have hstep (bs : List UInt8) : decode has (p :: ps) s bs =
          (p.run s bs).bind fun r => decode has ps r.1 r.2 := by
        rw [decode, if_pos hhas]
        rfl
      have hiff : Reads (decode has (p :: ps) s) (p.chunk field ++ bytesOf has field ps) s' ↔
          ∃ s₁, p.take (p.chunk field) s = some s₁ ∧
            Reads (decode has ps s₁) (bytesOf has field ps) s' := by
        obtain hexact | ⟨hext, hlast⟩ := hhead hhas
        · have hrest (rest : List UInt8) :
              decode has (p :: ps) s (p.chunk field ++ bytesOf has field ps ++ rest) =
                (p.take (p.chunk field) s).bind fun s₁ =>
                  decode has ps s₁ (bytesOf has field ps ++ rest) := by
            rw [hstep, List.append_assoc, hexact.take, Option.bind_map]
            rfl
          unfold Reads
          simp only [hrest]
          cases p.take (p.chunk field) s <;> simp
        · -- what comes behind are parts without fields
          have hbytes := bytesOf_of_none has field fun q hq => (hlast q hq).1
          rw [hbytes, List.append_nil]
          constructor
          · intro hreads
            have hnil := hreads []
            rw [List.append_nil, hstep] at hnil
            obtain ⟨⟨s₁, rest⟩, hrun, hdecode⟩ := Option.bind_eq_some_iff.mp hnil
            obtain ⟨⟨ws, rest'⟩, hread, hwrite⟩ := Option.bind_eq_some_iff.mp hrun
            obtain ⟨rfl, rfl⟩ := Prod.mk.inj (Option.some.inj hwrite)
            rw [decode_of_none field hlast] at hdecode
            obtain ⟨s₂, hfields, hrest⟩ := Option.map_eq_some_iff.mp hdecode
            obtain ⟨rfl, rfl⟩ := Prod.mk.inj hrest
            refine ⟨write ws s, Part.take_eq_some.mpr ⟨ws, hread, rfl⟩, fun rest => ?_⟩
            rw [decode_of_none field hlast, hfields]
            rfl
          · rintro ⟨s₁, htake, hreads⟩ rest
            obtain ⟨ws, hread, rfl⟩ := Part.take_eq_some.mp htake
            have hmore := hext s _ ws [] rest hread
            have hrun : p.run s (p.chunk field ++ rest) =
                (p.read s (p.chunk field ++ rest)).bind fun r => some (write r.1 s, r.2) := rfl
            rw [hstep, hrun, hmore]
            exact hreads rest
      rw [hiff, Option.bind_eq_some_iff]
      exact exists_congr fun s₁ => and_congr_right fun _ => ih htail
    · rw [if_neg hhas, if_neg hhas, List.nil_append, Option.bind_some, ← ih htail, decode, if_neg hhas]
      rfl

/-! ### Fields that are sent once more -/

/-- The memories agree but for the cells in `X`. -/
def Agree (X : κ → Prop) (s t : κ → V) : Prop := ∀ k, ¬ X k → s k = t k

variable {X : κ → Prop} {sent : ℕ → Option (List UInt8)}

/-- The fields of a message, and those that have been sent before. -/
def filled (sent : ℕ → Option (List UInt8)) (has : ℕ → Bool) (n : ℕ) : Bool := has n || (sent n).isSome

/-- The fields of a message, with those that it leaves out as they have been sent before. -/
def fillField (sent : ℕ → Option (List UInt8)) (has : ℕ → Bool) (field : ℕ → List UInt8) (n : ℕ) :
    List UInt8 := if has n then field n else (sent n).getD []

theorem Agree.write (h : Agree X s t) (ws : List (κ × V)) : Agree X (write ws s) (write ws t) :=
  fun k hk => write_congr (h k hk)

theorem Agree.take {c : List UInt8} (h : Agree X s t) (hX : p.Ignores X) :
    Option.Rel (Agree X) (p.take c s) (p.take c t) := by
  unfold Part.take
  rw [hX s t h]
  split
  · exact Option.Rel.some (h.write _)
  · exact Option.Rel.none

/-- The message in which fields that have been left out are sent once more. -/
theorem fill_agree (hagree : Agree X s t)
    (hignore : ∀ p ∈ ps, p.field.all (filled sent has) = true → p.Ignores X)
    (hquiet : ∀ pre p post n c s', ps = pre ++ p :: post → p.field = some n → has n = false →
      sent n = some c → decodeFields has field pre s = some s' →
        p.Absorbs c s' ∨ ∃ ws, p.read s' c = some (ws, []) ∧ ∀ w ∈ ws, X w.1) :
    Option.Rel (Agree X) (decodeFields has field ps s)
      (decodeFields (filled sent has) (fillField sent has field) ps t) := by
  induction ps generalizing s t with
  | nil => exact Option.Rel.some hagree
  | cons p ps ih =>
    have hnext {s₁ t₁ : κ → V} (hagree₁ : Agree X s₁ t₁)
        (hhead : (if p.field.all has then p.take (p.chunk field) s else some s) = some s₁) :
        Option.Rel (Agree X) (decodeFields has field ps s₁)
          (decodeFields (filled sent has) (fillField sent has field) ps t₁) := by
      refine ih hagree₁ (fun q hq => hignore q (List.mem_cons_of_mem _ hq)) ?_
      intro pre q post n c s' hps hq hleft hsent hdecode
      refine hquiet (p :: pre) q post n c s' (by rw [hps, List.cons_append]) hq hleft hsent ?_
      rw [decodeFields_cons, hhead, Option.bind_some, hdecode]
    have hboth {c : List UInt8} (hhas : p.field.all has = true) (hc : p.chunk field = c)
        (hignores : p.Ignores X) :
        Option.Rel (Agree X) ((p.take c s).bind (decodeFields has field ps))
          ((p.take c t).bind (decodeFields (filled sent has) (fillField sent has field) ps)) := by
      cases hs : p.take c s <;> cases ht : p.take c t
      all_goals have hrel := hagree.take (c := c) hignores
      all_goals rw [hs, ht] at hrel
      · exact Option.Rel.none
      · nomatch hrel
      · nomatch hrel
      · cases hrel with
        | some hrel => exact hnext hrel (by rw [if_pos hhas, hc, hs])
    have hself := hignore p List.mem_cons_self
    rw [decodeFields_cons, decodeFields_cons]
    cases hfield : p.field with
    | none =>
      have hchunk (field : ℕ → List UInt8) : p.chunk field = [] := by rw [Part.chunk, hfield]; rfl
      rw [hfield] at hself
      rw [Option.all_none, Option.all_none, if_pos rfl, if_pos rfl, hchunk, hchunk]
      exact hboth (by rw [hfield]; rfl) (hchunk field) (hself rfl)
    | some n =>
      have hchunk (field : ℕ → List UInt8) : p.chunk field = field n := by
        rw [Part.chunk, hfield]
        rfl
      rw [hfield, Option.all_some] at hself
      rw [Option.all_some, Option.all_some, hchunk, hchunk, fillField]
      cases hhas : has n with
      | true =>
        have hfilled : filled sent has n = true := by rw [filled, hhas, Bool.true_or]
        rw [hfilled, if_pos rfl, if_pos rfl, if_pos rfl]
        exact hboth (by rw [hfield, Option.all_some, hhas]) (hchunk field) (hself hfilled)
      | false =>
        have hskip : (if p.field.all has then p.take (p.chunk field) s else some s) = some s := by
          rw [hfield, Option.all_some, hhas]
          rfl
        rw [if_neg Bool.false_ne_true, if_neg Bool.false_ne_true, Option.bind_some]
        cases hsent : sent n with
        | none =>
          have hfilled : filled sent has n = false := by rw [filled, hhas, hsent]; rfl
          rw [hfilled, if_neg Bool.false_ne_true, Option.bind_some]
          exact hnext hagree hskip
        | some c =>
          have hfilled : filled sent has n = true := by rw [filled, hsent, Option.isSome_some, Bool.or_true]
          rw [hfilled, if_pos rfl, Option.getD_some]
          -- what is sent once more is absorbed, or is of no interest any more
          have hsame := hself hfilled s t hagree
          obtain habsorbs | ⟨ws, hread, hX⟩ := hquiet [] p ps n c s rfl hfield hhas hsent rfl
          · obtain ⟨ws, hread, hwrite⟩ := Part.take_eq_some.mp habsorbs
            have htake : p.take c t = some (write ws t) :=
              Part.take_eq_some.mpr ⟨ws, hsame ▸ hread, rfl⟩
            rw [htake, Option.bind_some]
            refine hnext (fun k hk => ?_) hskip
            rw [← hagree.write ws k hk, hwrite]
          · have htake : p.take c t = some (write ws t) :=
              Part.take_eq_some.mpr ⟨ws, hsame ▸ hread, rfl⟩
            rw [htake, Option.bind_some]
            refine hnext (fun k hk => (hagree k hk).trans (Eq.symm ?_)) hskip
            exact write_of_ne fun w hw heq => hk (heq ▸ hX w hw)

end Retain
