import FreeRDP.Collections.HashTable
import Mathlib.Data.List.TakeWhile

/-!
# A hash table is a finite map

`Refines h table m`: the pairs of the table are the entries of the finite map `m`, whose keys are the
classes of keys that `keyCompare` deems equal, and each pair is in the bucket of its hash.  Every call
outside of `HashTable_Foreach` does to the table what it says to the map, and answers accordingly, as long
as the number of pairs is an `int`.
-/

namespace FreeRDP.Collections

open Buckets

variable {K V : Type} {functions : HashTableFunctions K V}

/-! ### Finite maps -/

/-- `keyCompare` tells apart classes of keys, and `hash` takes the same value all over a class. -/
structure HashTableFunctions.Lawful (functions : HashTableFunctions K V) : Prop where
  equivalence : Equivalence fun a b => functions.keyCompare a b = true
  hash_eq : ∀ a b, functions.keyCompare a b = true → functions.hash a = functions.hash b

namespace HashTableFunctions.Lawful

/-- The keys that `keyCompare` deems equal. -/
def setoid (h : functions.Lawful) : Setoid K := ⟨_, h.equivalence⟩

instance (h : functions.Lawful) : DecidableEq (Quotient h.setoid) :=
  @Quotient.decidableEq K h.setoid fun a b =>
    inferInstanceAs (Decidable (functions.keyCompare a b = true))

/-- A finite map from classes of keys. -/
abbrev Map (h : functions.Lawful) : Type := Finmap fun _ : Quotient h.setoid => V

def classOf (h : functions.Lawful) (key : K) : Quotient h.setoid := Quotient.mk h.setoid key

def entry (h : functions.Lawful) (pair : KeyValuePair K V) : Sigma fun _ : Quotient h.setoid => V :=
  ⟨h.classOf pair.key, pair.value⟩

variable {h : functions.Lawful} {a b : K}

theorem classOf_eq_iff : h.classOf a = h.classOf b ↔ functions.keyCompare a b = true := Quotient.eq

theorem bucketOf_eq (h : functions.Lawful) (n : ℕ) (hab : functions.keyCompare a b = true) :
    HashTable.bucketOf functions n a = HashTable.bucketOf functions n b := by
  rw [HashTable.bucketOf, HashTable.bucketOf, h.hash_eq a b hab]

end HashTableFunctions.Lawful

/-- The pairs of the table are the entries of `m`, and each is in the bucket of its hash. -/
structure Refines (h : functions.Lawful) (table : HashTable K V) (m : h.Map) : Prop where
  entries : (contents table.numOfBuckets table.bucketArray).map h.entry = m.entries
  placed : Placed (fun pair => HashTable.bucketOf functions table.numOfBuckets pair.key)
    table.numOfBuckets table.bucketArray
  numOfElements : table.numOfElements = m.keys.card
  numOfBuckets_pos : 0 < table.numOfBuckets
  live : ∀ pair ∈ contents table.numOfBuckets table.bucketArray, pair.markedForRemove = false
  foreachRecursionLevel : table.foreachRecursionLevel = 0

variable {h : functions.Lawful} {table : HashTable K V} {m : h.Map} {key : K} {value : V}

theorem refines_of_empty (hempty : ∀ i < table.numOfBuckets, table.bucketArray i = [])
    (hpos : 0 < table.numOfBuckets) (hcount : table.numOfElements = 0)
    (hlevel : table.foreachRecursionLevel = 0) : Refines h table ∅ := by
  have hnone : ∀ pair, pair ∉ contents table.numOfBuckets table.bucketArray := by
    intro pair hpair
    obtain ⟨i, hi, hmem⟩ := mem_contents.mp hpair
    rw [hempty i hi] at hmem
    exact absurd hmem List.not_mem_nil
  refine ⟨?_, fun i hi pair hpair => ?_, hcount, hpos, fun pair hpair => absurd hpair (hnone pair),
    hlevel⟩
  · rw [Multiset.eq_zero_of_forall_notMem hnone]
    rfl
  · rw [hempty i hi] at hpair
    exact absurd hpair List.not_mem_nil

theorem refines_new : Refines h (hashTableNew : HashTable K V) ∅ :=
  refines_of_empty (fun _ _ => rfl) (Nat.zero_lt_of_lt (Nat.lt_succ_self 63)) rfl rfl

theorem bucketOf_lt (functions : HashTableFunctions K V) {n : ℕ} (hn : 0 < n) (key : K) :
    HashTable.bucketOf functions n key < n :=
  Nat.mod_lt _ hn

theorem card_keys (m : h.Map) : m.keys.card = m.entries.card := Multiset.card_map _ _

theorem le_nextProbablePrime (n : ℕ) (hn : n % 2 = 1) : n ≤ nextProbablePrime n hn := by
  induction n, hn using nextProbablePrime.induct with
  | case1 n hn hprime =>
    rw [nextProbablePrime, if_pos hprime]
  | case2 n hn hprime ih =>
    rw [nextProbablePrime, if_neg hprime]
    omega

theorem calculateIdealNumOfBuckets_pos (functions : HashTableFunctions K V) (numOfElements : ℤ) :
    0 < calculateIdealNumOfBuckets functions numOfElements := by
  unfold calculateIdealNumOfBuckets
  dsimp only
  split
  · decide
  · next hlarge =>
    have hle := le_nextProbablePrime _ (Nat.or_mod_two_eq_one.mpr (Or.inr rfl) :
      ((numOfElements.tdiv functions.idealRatio).toNat ||| 1) % 2 = 1)
    have hor := @Nat.left_le_or (numOfElements.tdiv functions.idealRatio).toNat 1
    omega

/-! ### The walk along a chain -/

theorem walk_cases (functions : HashTableFunctions K V) (key : K) (chain : List (KeyValuePair K V)) :
    (∃ front pair rest, chain = front ++ pair :: rest ∧ functions.keyCompare key pair.key = true ∧
      HashTable.walk functions key chain = (front, pair :: rest)) ∨
    (∀ pair ∈ chain, functions.keyCompare key pair.key = false) ∧
      HashTable.walk functions key chain = (chain, []) := by
  have hspan : HashTable.walk functions key chain =
      (chain.takeWhile fun pair => !functions.keyCompare key pair.key,
        chain.dropWhile fun pair => !functions.keyCompare key pair.key) :=
    List.span_eq_takeWhile_dropWhile _ _
  have happend := chain.takeWhile_append_dropWhile (p := fun pair => !functions.keyCompare key pair.key)
  cases hrest : chain.dropWhile fun pair => !functions.keyCompare key pair.key with
  | nil =>
    right
    rw [hrest, List.append_nil] at happend
    rw [hspan, hrest, happend]
    refine ⟨fun pair hpair => ?_, rfl⟩
    simpa using List.dropWhile_eq_nil_iff.mp hrest pair hpair
  | cons pair rest =>
    left
    rw [hrest] at happend
    refine ⟨_, pair, rest, happend.symm, ?_, by rw [hspan, hrest]⟩
    have hhead := List.head_dropWhile_not (fun pair => !functions.keyCompare key pair.key)
      (l := chain) (by simp [hrest])
    simpa [hrest] using hhead

variable (functions) in
abbrev HashTable.index (table : HashTable K V) (key : K) : ℕ :=
  HashTable.bucketOf functions table.numOfBuckets key

variable (functions) in
/-- A walk to `key` stops at `pair`, between `front` and `rest`; `others` are the other pairs of the table. -/
structure Found (table : HashTable K V) (key : K) (front : List (KeyValuePair K V))
    (pair : KeyValuePair K V) (rest : List (KeyValuePair K V)) (others : Multiset (KeyValuePair K V)) :
    Prop where
  chain : table.bucketArray (table.index functions key) = front ++ pair :: rest
  walk : HashTable.walk functions key (table.bucketArray (table.index functions key)) = (front, pair :: rest)
  keyCompare : functions.keyCompare key pair.key = true
  pairs : contents table.numOfBuckets table.bucketArray = pair ::ₘ others
  set : ∀ pair', contents table.numOfBuckets (Function.update table.bucketArray
    (table.index functions key) (front ++ pair' :: rest)) = pair' ::ₘ others
  cut : contents table.numOfBuckets (Function.update table.bucketArray
    (table.index functions key) (front ++ rest)) = others

/-- A walk finds the pair with a key, if there is one. -/
theorem walk_contents (h : functions.Lawful)
    (hplaced : Placed (fun pair => table.index functions pair.key) table.numOfBuckets table.bucketArray)
    (hpos : 0 < table.numOfBuckets) (key : K) :
    (∃ front pair rest others, Found functions table key front pair rest others) ∨
    (∀ pair ∈ contents table.numOfBuckets table.bucketArray,
        functions.keyCompare key pair.key = false) ∧
      HashTable.walk functions key (table.bucketArray (table.index functions key)) =
        (table.bucketArray (table.index functions key), []) := by
  have hlt : table.index functions key < table.numOfBuckets := bucketOf_lt functions hpos key
  obtain ⟨front, pair, rest, hchain, hkey, hwalk⟩ | ⟨hnone, hwalk⟩ :=
    walk_cases functions key (table.bucketArray (table.index functions key))
  · obtain ⟨others, hcontents, hset, hcut⟩ := exists_contents_cons hlt hchain
    exact Or.inl ⟨front, pair, rest, others, hchain, hwalk, hkey, hcontents, hset, hcut⟩
  · refine Or.inr ⟨fun pair hpair => ?_, hwalk⟩
    rw [← Bool.not_eq_true]
    intro hkey
    -- a pair with the key is in the bucket of the key
    have hmem := (hplaced.mem_iff (bucketOf_lt functions hpos pair.key)).mp hpair
    rw [HashTable.index, ← h.bucketOf_eq _ hkey] at hmem
    rw [hnone pair hmem] at hkey
    exact absurd hkey Bool.false_ne_true

section Found

variable {front rest : List (KeyValuePair K V)} {pair pair' : KeyValuePair K V}
  {others : Multiset (KeyValuePair K V)}

theorem Found.index_cut (hfound : Found functions table key front pair rest others)
    (hplaced : Placed (fun pair => table.index functions pair.key) table.numOfBuckets table.bucketArray)
    (hpos : 0 < table.numOfBuckets) :
    ∀ p ∈ front ++ rest, table.index functions p.key = table.index functions key := by
  intro p hp
  refine hplaced _ (bucketOf_lt functions hpos key) p (hfound.chain ▸ ?_)
  obtain hp | hp := List.mem_append.mp hp
  · exact List.mem_append_left _ hp
  · exact List.mem_append_right _ (List.mem_cons_of_mem _ hp)

theorem Found.index_set (hfound : Found functions table key front pair rest others) (h : functions.Lawful)
    (hplaced : Placed (fun pair => table.index functions pair.key) table.numOfBuckets table.bucketArray)
    (hpos : 0 < table.numOfBuckets) (hkey : functions.keyCompare key pair'.key = true) :
    ∀ p ∈ front ++ pair' :: rest, table.index functions p.key = table.index functions key := by
  intro p hp
  obtain rfl | hp := List.mem_cons.mp (List.perm_middle.mem_iff.mp hp)
  · exact (h.bucketOf_eq _ hkey).symm
  · exact hfound.index_cut hplaced hpos p hp

end Found

namespace Refines

/-- A key is found in the table if it is in the map. -/
theorem walk_index (href : Refines h table m) (key : K) :
    (∃ front pair rest others, Found functions table key front pair rest others ∧
      pair.markedForRemove = false) ∨
    h.classOf key ∉ m ∧
      HashTable.walk functions key (table.bucketArray (table.index functions key)) =
        (table.bucketArray (table.index functions key), []) := by
  obtain ⟨front, pair, rest, others, hfound⟩ | ⟨hnone, hwalk⟩ :=
    walk_contents h href.placed href.numOfBuckets_pos key
  · refine Or.inl ⟨front, pair, rest, others, hfound, ?_⟩
    exact href.live pair (hfound.pairs ▸ Multiset.mem_cons_self pair others)
  · refine Or.inr ⟨fun hmem => ?_, hwalk⟩
    rw [Finmap.mem_def, ← href.entries] at hmem
    obtain ⟨e, he, hclass⟩ := Multiset.mem_map.mp hmem
    obtain ⟨pair, hpair, rfl⟩ := Multiset.mem_map.mp he
    have hkey : functions.keyCompare key pair.key = true :=
      HashTableFunctions.Lawful.classOf_eq_iff.mp hclass.symm
    rw [hnone pair hpair] at hkey
    exact absurd hkey Bool.false_ne_true

variable {front rest : List (KeyValuePair K V)} {pair pair' : KeyValuePair K V}
  {others : Multiset (KeyValuePair K V)}

/-- The entries of the map, with that of a pair in front. -/
theorem entries_cons (href : Refines h table m)
    (hfound : Found functions table key front pair rest others) :
    m.entries = ⟨h.classOf key, pair.value⟩ ::ₘ others.map h.entry := by
  rw [← href.entries, hfound.pairs, Multiset.map_cons, HashTableFunctions.Lawful.entry,
    HashTableFunctions.Lawful.classOf_eq_iff.mpr hfound.keyCompare]

theorem lookup_eq (href : Refines h table m)
    (hfound : Found functions table key front pair rest others) :
    m.lookup (h.classOf key) = some pair.value := by
  refine Finmap.lookup_eq_some_iff.mpr ?_
  rw [href.entries_cons hfound]
  exact Multiset.mem_cons_self _ _

/-! ### Rehashing -/

/-- Rehashing moves pairs between buckets only. -/
theorem rehash (href : Refines h table m) (calloc : Bool) (numOfBuckets : ℕ) :
    Refines h (table.rehash functions calloc numOfBuckets) m := by
  have hpos : 0 < (if numOfBuckets = 0 then calculateIdealNumOfBuckets functions table.numOfElements
      else numOfBuckets) := by
    split
    · exact calculateIdealNumOfBuckets_pos functions table.numOfElements
    · omega
  dsimp only [HashTable.rehash]
  generalize (if numOfBuckets = 0 then calculateIdealNumOfBuckets functions table.numOfElements
    else numOfBuckets) = n at hpos ⊢
  split_ifs
  · exact href
  · have hlt := fun pair : KeyValuePair K V => bucketOf_lt functions hpos pair.key
    have hcontents := contents_distribute hlt table.numOfBuckets table.bucketArray
    exact
      { entries := by rw [hcontents, href.entries]
        placed := placed_distribute hlt _ _
        numOfElements := href.numOfElements
        numOfBuckets_pos := hpos
        live := fun pair hpair => href.live pair (hcontents ▸ hpair)
        foreachRecursionLevel := href.foreachRecursionLevel }
  · exact href

/-! ### Changes of a chain -/

/-- Another chain in the bucket of a key, and another number of elements. -/
theorem setBucket {m' : h.Map} (href : Refines h table m) {chain : List (KeyValuePair K V)}
    (hentries : (contents table.numOfBuckets (Function.update table.bucketArray
      (table.index functions key) chain)).map h.entry = m'.entries)
    (hchain : ∀ pair ∈ chain, table.index functions pair.key = table.index functions key)
    (hlive : ∀ pair ∈ contents table.numOfBuckets (Function.update table.bucketArray
      (table.index functions key) chain), pair.markedForRemove = false)
    {n : ℤ} (hcount : n = m'.keys.card) :
    Refines h { table.setBucket (table.index functions key) chain with numOfElements := n } m' where
  entries := hentries
  placed := href.placed.update hchain
  numOfElements := hcount
  numOfBuckets_pos := href.numOfBuckets_pos
  live := hlive
  foreachRecursionLevel := href.foreachRecursionLevel

theorem index_eq (href : Refines h table m) {pair : KeyValuePair K V}
    (hpair : pair ∈ table.bucketArray (table.index functions key)) :
    table.index functions pair.key = table.index functions key :=
  href.placed _ (bucketOf_lt functions href.numOfBuckets_pos key) pair hpair

end Refines

theorem bmod_of_lt {n : ℤ} (hzero : 0 ≤ n) (hlt : n < 2 ^ 31) : n.bmod (2 ^ 32) = n := by
  rw [Int.bmod_def]
  push_cast
  split <;> omega

/-! ### Adding and removing -/

variable [Inhabited K] [Inhabited V] [DecidableEq K] [DecidableEq V] {calls : Calls K V}

/-- The key that is kept: the clone, if keys are cloned. -/
def keptKey (functions : HashTableFunctions K V) (calls : Calls K V) (key : K) : K :=
  if functions.keyClone then calls.keyClone else key

/-- The value that is kept: the clone, if values are cloned. -/
def keptValue (functions : HashTableFunctions K V) (calls : Calls K V) (value : V) : V :=
  if functions.valueClone then calls.valueClone else value

/-- A clone of a key is in the class of the key. -/
def ClonesKey (functions : HashTableFunctions K V) (calls : Calls K V) (key : K) : Prop :=
  functions.keyClone = true → calls.keyClone ≠ default →
    functions.keyCompare key calls.keyClone = true

/-- There are a key and a value, and memory for what a new entry needs. -/
abbrev Adds (h : functions.Lawful) (calls : Calls K V) (key : K) (value : V) (m : h.Map) : Prop :=
  (key ≠ default ∧ value ≠ default ∧ keptKey functions calls key ≠ default ∧
    keptValue functions calls value ≠ default) ∧ (h.classOf key ∈ m ∨ calls.malloc = true)

namespace Refines

theorem classOf_keptKey (hclone : ClonesKey functions calls key)
    (hkept : keptKey functions calls key ≠ default) :
    h.classOf (keptKey functions calls key) = h.classOf key := by
  unfold keptKey at hkept ⊢
  split
  · next hclones =>
    rw [if_pos hclones] at hkept
    exact (HashTableFunctions.Lawful.classOf_eq_iff.mpr (hclone hclones hkept)).symm
  · rfl

/-- A pair that is found gets another key of its class and another value. -/
theorem replace (href : Refines h table m) (hfound : Found functions table key front pair rest others)
    (hkey' : functions.keyCompare key pair'.key = true) (hlive : pair'.markedForRemove = false) :
    Refines h (table.setBucket (table.index functions key) (front ++ pair' :: rest))
      (m.insert (h.classOf key) pair'.value) := by
  have hentries := href.entries_cons hfound
  have hinsert := entries_insert_of_cons hentries pair'.value
  refine href.setBucket ?_ (hfound.index_set h href.placed href.numOfBuckets_pos hkey') ?_ ?_
  · rw [hfound.set, hinsert, Multiset.map_cons, HashTableFunctions.Lawful.entry,
      HashTableFunctions.Lawful.classOf_eq_iff.mpr hkey']
  · intro p hp
    rw [hfound.set] at hp
    obtain rfl | hp := Multiset.mem_cons.mp hp
    · exact hlive
    · exact href.live p (hfound.pairs ▸ Multiset.mem_cons_of_mem hp)
  · rw [href.numOfElements, card_keys, card_keys, hinsert, hentries, Multiset.card_cons,
      Multiset.card_cons]

/-- A pair with a new key comes in front of its chain. -/
theorem cons (href : Refines h table m) (hlive : pair.markedForRemove = false)
    (hnot : h.classOf pair.key ∉ m)
    (hcard : (m.insert (h.classOf pair.key) pair.value).keys.card < 2 ^ 31) :
    Refines h ((table.setBucket (table.index functions pair.key)
      (pair :: table.bucketArray (table.index functions pair.key))).addElements 1)
      (m.insert (h.classOf pair.key) pair.value) := by
  have hcontents := contents_update_cons (bucketOf_lt functions
    href.numOfBuckets_pos pair.key) table.bucketArray pair
  have hinsert := Finmap.entries_insert_of_notMem (b := pair.value) hnot
  refine href.setBucket ?_ ?_ ?_ ?_
  · rw [hcontents, hinsert, Multiset.map_cons, href.entries]
    rfl
  · intro p hp
    obtain rfl | hp := List.mem_cons.mp hp
    · rfl
    · exact href.index_eq hp
  · intro p hp
    rw [hcontents] at hp
    obtain rfl | hp := Multiset.mem_cons.mp hp
    · exact hlive
    · exact href.live p hp
  · rw [card_keys, hinsert, Multiset.card_cons] at hcard ⊢
    have hcount := href.numOfElements
    rw [card_keys] at hcount
    rw [HashTable.setBucket, hcount, bmod_of_lt (by omega) (by omega)]
    push_cast
    rfl

theorem cut (href : Refines h table m) (hfound : Found functions table key front pair rest others)
    (hcard : m.keys.card < 2 ^ 31) :
    Refines h ((table.setBucket (table.index functions key) (front ++ rest)).addElements (-1))
      (m.erase (h.classOf key)) := by
  have hentries := href.entries_cons hfound
  have herase := entries_erase_of_cons hentries
  refine href.setBucket ?_ (hfound.index_cut href.placed href.numOfBuckets_pos) ?_ ?_
  · rw [hfound.cut, herase]
  · intro p hp
    rw [hfound.cut] at hp
    exact href.live p (hfound.pairs ▸ Multiset.mem_cons_of_mem hp)
  · have hcount := href.numOfElements
    rw [card_keys] at hcard hcount ⊢
    rw [hentries, Multiset.card_cons] at hcard hcount
    rw [HashTable.setBucket, hcount, herase, bmod_of_lt (by push_cast; omega) (by push_cast; omega)]
    push_cast
    omega

/-- `HashTable_Add` is an insertion into the map. -/
theorem add (href : Refines h table m) (hclone : ClonesKey functions calls key)
    (hcard : Adds h calls key value m →
      (m.insert (h.classOf key) (keptValue functions calls value)).keys.card < 2 ^ 31) :
    (table.add functions calls key value).1 = (if Adds h calls key value m then 0 else -1) ∧
      Refines h (table.add functions calls key value).2
        (if Adds h calls key value m then
          m.insert (h.classOf key) (keptValue functions calls value)
        else m) := by
  have hkeptKey : (if functions.keyClone then calls.keyClone else key) =
      keptKey functions calls key := rfl
  have hkeptValue : (if functions.valueClone then calls.valueClone else value) =
      keptValue functions calls value := rfl
  dsimp only [HashTable.add]
  rw [hkeptKey, hkeptValue]
  by_cases hnull : key = default ∨ value = default
  · have hnot : ¬ Adds h calls key value m := by tauto
    rw [if_pos hnull, if_neg hnot, if_neg hnot]
    exact ⟨rfl, href⟩
  rw [if_neg hnull]
  by_cases hkeyNull : keptKey functions calls key = default
  · have hnot : ¬ Adds h calls key value m := by tauto
    rw [if_pos hkeyNull, if_neg hnot, if_neg hnot]
    exact ⟨rfl, href⟩
  rw [if_neg hkeyNull]
  by_cases hvalueNull : keptValue functions calls value = default
  · have hnot : ¬ Adds h calls key value m := by tauto
    rw [if_pos hvalueNull, if_neg hnot, if_neg hnot]
    exact ⟨rfl, href⟩
  rw [if_neg hvalueNull]
  have hclass := classOf_keptKey (h := h) hclone hkeyNull
  have hnonNull : key ≠ default ∧ value ≠ default ∧ keptKey functions calls key ≠ default ∧
      keptValue functions calls value ≠ default := by tauto
  obtain ⟨front, pair, rest, others, hfound, hlive⟩ | ⟨hnot, hwalk⟩ :=
    href.walk_index (keptKey functions calls key)
  · -- the key is there, and gets another value
    have hadds : Adds h calls key value m := by
      refine ⟨hnonNull, Or.inl ?_⟩
      rw [← hclass]
      exact Finmap.mem_of_lookup_eq_some (href.lookup_eq hfound)
    rw [if_pos hadds, if_pos hadds, ← hclass, hfound.walk]
    dsimp only
    rw [hlive, if_neg Bool.false_ne_true]
    exact ⟨rfl, href.replace hfound (h.equivalence.refl _) rfl⟩
  · rw [hwalk]
    dsimp only
    by_cases hmalloc : calls.malloc = true
    · have hadds : Adds h calls key value m := ⟨hnonNull, Or.inr hmalloc⟩
      have hcard := hcard hadds
      rw [← hclass] at hcard
      have hcons := href.cons (rfl : KeyValuePair.markedForRemove
        ⟨keptKey functions calls key, keptValue functions calls value, false⟩ = false) hnot hcard
      rw [if_neg (not_not.mpr hmalloc), if_pos hadds, if_pos hadds, ← hclass]
      refine ⟨rfl, ?_⟩
      dsimp only
      split_ifs
      · exact hcons.rehash _ _
      · exact hcons
    · have hnotAdds : ¬ Adds h calls key value m := by
        rintro ⟨-, hmem | hmem⟩
        · exact hnot (hclass ▸ hmem)
        · exact hmalloc hmem
      rw [if_pos hmalloc, if_neg hnotAdds, if_neg hnotAdds]
      exact ⟨rfl, href⟩

/-- `HashTable_Remove` takes an entry out of the map. -/
theorem remove (href : Refines h table m) (hcard : m.keys.card < 2 ^ 31) (calls : Calls K V)
    (key : K) :
    (table.remove functions calls key).1 = decide (h.classOf key ∈ m) ∧
      Refines h (table.remove functions calls key).2 (m.erase (h.classOf key)) := by
  dsimp only [HashTable.remove]
  obtain ⟨front, pair, rest, others, hfound, hlive⟩ | ⟨hnot, hwalk⟩ := href.walk_index key
  · have hmem := Finmap.mem_of_lookup_eq_some (href.lookup_eq hfound)
    have hcut := href.cut hfound hcard
    rw [hfound.walk, decide_eq_true hmem]
    dsimp only
    rw [if_neg (not_not.mpr href.foreachRecursionLevel)]
    refine ⟨rfl, ?_⟩
    dsimp only
    split_ifs
    · exact hcut.rehash _ _
    · exact hcut
  · have herase : m.erase (h.classOf key) = m := by
      refine Finmap.ext_lookup fun k => ?_
      by_cases hk : k = h.classOf key
      · rw [hk, Finmap.lookup_erase, Finmap.lookup_eq_none.mpr hnot]
      · exact Finmap.lookup_erase_ne hk
    rw [hwalk, decide_eq_false hnot, herase]
    exact ⟨rfl, href⟩

/-- `HashTable_SetItemValue` changes the value of an entry. -/
theorem setItemValue (href : Refines h table m) (calls : Calls K V) (key : K) (value : V) :
    let kept := if functions.valueClone ∧ value ≠ default then calls.valueClone else value
    let sets := (functions.valueClone = true → value ≠ default → calls.valueClone ≠ default) ∧
      h.classOf key ∈ m
    (table.setItemValue functions calls key value).1 = decide sets ∧
      Refines h (table.setItemValue functions calls key value).2
        (if sets then m.insert (h.classOf key) kept else m) := by
  intro kept sets
  dsimp only [HashTable.setItemValue]
  by_cases hnull : functions.valueClone = true ∧ value ≠ default ∧ calls.valueClone = default
  · have hnot : ¬ sets := fun hsets => hsets.1 hnull.1 hnull.2.1 hnull.2.2
    rw [if_pos hnull, decide_eq_false hnot, if_neg hnot]
    exact ⟨rfl, href⟩
  rw [if_neg hnull]
  obtain ⟨front, pair, rest, others, hfound, hlive⟩ | ⟨hnot, hwalk⟩ := href.walk_index key
  · have hmem := Finmap.mem_of_lookup_eq_some (href.lookup_eq hfound)
    have hsets : sets := ⟨fun hclones hvalue hclone => hnull ⟨hclones, hvalue, hclone⟩, hmem⟩
    rw [hfound.walk, decide_eq_true hsets, if_pos hsets]
    dsimp only
    rw [hlive, if_neg Bool.false_ne_true]
    exact ⟨rfl, href.replace hfound hfound.keyCompare rfl⟩
  · have hnotSets : ¬ sets := fun hsets => hnot hsets.2
    rw [hwalk, decide_eq_false hnotSets, if_neg hnotSets]
    exact ⟨rfl, href⟩

/-! ### Looking up -/

theorem get_cases (href : Refines h table m) (key : K) :
    (∃ pair, table.get functions key = some pair ∧ pair.markedForRemove = false ∧
      m.lookup (h.classOf key) = some pair.value) ∨
    table.get functions key = none ∧ h.classOf key ∉ m := by
  obtain ⟨front, pair, rest, others, hfound, hlive⟩ | ⟨hnot, hwalk⟩ := href.walk_index key
  · exact Or.inl ⟨pair, by rw [HashTable.get, hfound.walk]; rfl, hlive, href.lookup_eq hfound⟩
  · exact Or.inr ⟨by rw [HashTable.get, hwalk]; rfl, hnot⟩

theorem getItemValue (href : Refines h table m) (key : K) :
    table.getItemValue functions key = (m.lookup (h.classOf key)).getD default := by
  unfold HashTable.getItemValue
  obtain ⟨pair, hget, hlive, hlookup⟩ | ⟨hget, hnot⟩ := href.get_cases key
  · simp [hget, hlive, hlookup]
  · simp [hget, Finmap.lookup_eq_none.mpr hnot]

theorem contains (href : Refines h table m) (key : K) :
    table.contains functions key = decide (h.classOf key ∈ m) := by
  unfold HashTable.contains
  obtain ⟨pair, hget, hlive, hlookup⟩ | ⟨hget, hnot⟩ := href.get_cases key
  · simp [hget, hlive, Finmap.mem_of_lookup_eq_some hlookup]
  · simp [hget, hnot]

theorem containsValue (href : Refines h table m) (value : V) :
    table.containsValue functions value = true ↔
      ∃ k v, m.lookup k = some v ∧ functions.valueCompare value v = true := by
  simp only [HashTable.containsValue, List.any_eq_true, List.mem_range, Bool.and_eq_true,
    Bool.not_eq_true']
  constructor
  · rintro ⟨index, hindex, pair, hpair, -, hvalue⟩
    refine ⟨h.classOf pair.key, pair.value, Finmap.lookup_eq_some_iff.mpr ?_, hvalue⟩
    rw [← href.entries]
    exact Multiset.mem_map_of_mem h.entry (mem_contents.mpr ⟨index, hindex, hpair⟩)
  · rintro ⟨k, v, hlookup, hvalue⟩
    have hmem := Finmap.lookup_eq_some_iff.mp hlookup
    rw [← href.entries] at hmem
    obtain ⟨pair, hpair, heq⟩ := Multiset.mem_map.mp hmem
    obtain ⟨index, hindex, hchain⟩ := mem_contents.mp hpair
    cases heq
    exact ⟨index, hindex, pair, hchain, href.live pair hpair, hvalue⟩

/-- `HashTable_GetKeys` gives a key of each class that has an entry. -/
theorem getKeys (href : Refines h table m) (calls : Calls K V) :
    ∃ answer, table.getKeys calls = some answer ∧
      if m.keys.card = 0 ∨ calls.calloc = true then
        answer.1 = m.keys.card ∧ ((answer.2.map h.classOf : List _) : Multiset _) = m.keys.val
      else answer = (-1, []) := by
  unfold HashTable.getKeys
  have hcount := href.numOfElements
  by_cases hzero : m.keys.card = 0
  · have hempty : m.keys.val = 0 := by rw [Finset.card_eq_zero.mp hzero, Finset.empty_val]
    rw [if_pos (by omega)]
    refine ⟨_, rfl, ?_⟩
    rw [if_pos (Or.inl hzero), hzero, hempty]
    exact ⟨rfl, rfl⟩
  rw [if_neg (by omega)]
  by_cases hcalloc : calls.calloc = true
  · rw [if_neg (not_not.mpr hcalloc)]
    have hfilter : (((List.range table.numOfBuckets).flatMap table.bucketArray).filter fun pair =>
        !pair.markedForRemove) = (List.range table.numOfBuckets).flatMap table.bucketArray := by
      refine List.filter_eq_self.mpr fun pair hpair => ?_
      have hmem : pair ∈ contents table.numOfBuckets table.bucketArray := by
        rw [← contents_flatMap]
        exact hpair
      rw [href.live pair hmem]
      rfl
    have hkeys : (((((List.range table.numOfBuckets).flatMap table.bucketArray).map
        KeyValuePair.key).map h.classOf : List _) : Multiset _) = m.keys.val := by
      have hval : m.keys.val = m.entries.map Sigma.fst := rfl
      rw [hval, ← href.entries, ← contents_flatMap, Multiset.map_map, Multiset.map_coe, List.map_map]
      rfl
    have hlength := congrArg Multiset.card hkeys
    rw [Multiset.coe_card, List.length_map] at hlength
    have hlength : (((List.range table.numOfBuckets).flatMap table.bucketArray).map
        KeyValuePair.key).length = m.keys.card := hlength
    dsimp only
    rw [hfilter, hlength, if_pos (by omega)]
    refine ⟨_, rfl, ?_⟩
    rw [if_pos (Or.inr hcalloc), hcount, Int.toNat_natCast, Nat.sub_self, List.replicate_zero,
      List.append_nil]
    exact ⟨rfl, hkeys⟩
  · rw [if_pos hcalloc]
    refine ⟨_, rfl, ?_⟩
    rw [if_neg (not_or.mpr ⟨hzero, hcalloc⟩)]

/-- `HashTable_Clear` leaves nothing. -/
theorem clear (href : Refines h table m) (calls : Calls K V) :
    ∃ table', table.clear functions calls = some table' ∧ Refines h table' ∅ := by
  unfold HashTable.clear
  rw [if_neg (fun hlevel => hlevel.1 href.foreachRecursionLevel)]
  refine ⟨_, rfl, ?_⟩
  dsimp only
  rw [if_pos href.foreachRecursionLevel]
  have hempty : Refines h { table with
      bucketArray := fun index =>
        if index < table.numOfBuckets then [] else table.bucketArray index
      numOfElements := 0 } ∅ :=
    refines_of_empty (fun i hi => if_pos hi) href.numOfBuckets_pos rfl href.foreachRecursionLevel
  exact hempty.rehash _ _

end Refines

/-! ### Sequences of calls -/

inductive HashTableCall (K V : Type)
  | add (key : K) (value : V)
  | remove (key : K)
  | getItemValue (key : K)
  | setItemValue (key : K) (value : V)
  | contains (key : K)
  | containsKey (key : K)
  | containsValue (value : V)
  | getKeys
  | count
  | clear

inductive HashTableAnswer (K V : Type)
  | number (n : ℤ)
  | bool (b : Bool)
  | value (v : V)
  | keys (count : ℤ) (keys : List K)
  | nothing

def HashTable.call (functions : HashTableFunctions K V) (calls : Calls K V) (table : HashTable K V) :
    HashTableCall K V → Option (HashTableAnswer K V × HashTable K V)
  | .add key value =>
    let (status, table) := table.add functions calls key value
    some (.number status, table)
  | .remove key =>
    let (status, table) := table.remove functions calls key
    some (.bool status, table)
  | .getItemValue key => some (.value (table.getItemValue functions key), table)
  | .setItemValue key value =>
    let (status, table) := table.setItemValue functions calls key value
    some (.bool status, table)
  | .contains key => some (.bool (table.contains functions key), table)
  | .containsKey key => some (.bool (table.containsKey functions key), table)
  | .containsValue value => some (.bool (table.containsValue functions value), table)
  | .getKeys => (table.getKeys calls).map fun answer => (.keys answer.1 answer.2, table)
  | .count => some (.number table.count, table)
  | .clear => (table.clear functions calls).map fun table => (.nothing, table)

def HashTable.run (functions : HashTableFunctions K V) (table : HashTable K V) :
    List (HashTableCall K V × Calls K V) → Option (List (HashTableAnswer K V) × HashTable K V)
  | [] => some ([], table)
  | (call, calls) :: rest => do
    let (answer, table) ← table.call functions calls call
    let (answers, table) ← table.run functions rest
    return (answer :: answers, table)

/-- An item that is there, and memory for a clone of its new value. -/
abbrev Sets (h : functions.Lawful) (calls : Calls K V) (key : K) (value : V) (m : h.Map) : Prop :=
  (functions.valueClone = true → value ≠ default → calls.valueClone ≠ default) ∧ h.classOf key ∈ m

/-- What a call does to the map. -/
def HashTableCall.apply (h : functions.Lawful) (calls : Calls K V) (m : h.Map) :
    HashTableCall K V → h.Map
  | add key value =>
    if Adds h calls key value m then m.insert (h.classOf key) (keptValue functions calls value) else m
  | remove key => m.erase (h.classOf key)
  | setItemValue key value =>
    if Sets h calls key value m then
      m.insert (h.classOf key)
        (if functions.valueClone ∧ value ≠ default then calls.valueClone else value)
    else m
  | clear => ∅
  | _ => m

/-- What the map says to a call. -/
def HashTableCall.Answers (h : functions.Lawful) (calls : Calls K V) (m : h.Map)
    (answer : HashTableAnswer K V) : HashTableCall K V → Prop
  | add key value => answer = .number (if Adds h calls key value m then 0 else -1)
  | remove key | contains key | containsKey key => answer = .bool (decide (h.classOf key ∈ m))
  | getItemValue key => answer = .value ((m.lookup (h.classOf key)).getD default)
  | setItemValue key value => answer = .bool (decide (Sets h calls key value m))
  | containsValue value => ∃ b, answer = .bool b ∧
      (b = true ↔ ∃ k v, m.lookup k = some v ∧ functions.valueCompare value v = true)
  | getKeys =>
    if m.keys.card = 0 ∨ calls.calloc = true then
      ∃ keys, answer = .keys m.keys.card keys ∧
        ((keys.map h.classOf : List _) : Multiset _) = m.keys.val
    else answer = .keys (-1) []
  | count => answer = .number m.keys.card
  | clear => answer = .nothing

/-- A clone of a key that is added is in the class of the key. -/
def HashTableCall.Clones (functions : HashTableFunctions K V) (calls : Calls K V) :
    HashTableCall K V → Prop
  | add key _ => ClonesKey functions calls key
  | _ => True

def mapBehind (h : functions.Lawful) : List (HashTableCall K V × Calls K V) → h.Map → h.Map
  | [], m => m
  | (call, calls) :: rest, m => mapBehind h rest (call.apply h calls m)

/-- What the map says to the calls. -/
def AnswersAll (h : functions.Lawful) :
    List (HashTableCall K V × Calls K V) → h.Map → List (HashTableAnswer K V) → Prop
  | [], _, answers => answers = []
  | (call, calls) :: rest, m, answers => ∃ answer answers', answers = answer :: answers' ∧
      call.Answers h calls m answer ∧ AnswersAll h rest (call.apply h calls m) answers'

/-- There are always fewer than `2 ^ 31` entries. -/
def Counted (h : functions.Lawful) : List (HashTableCall K V × Calls K V) → h.Map → Prop
  | [], _ => True
  | (call, calls) :: rest, m =>
    (call.apply h calls m).keys.card < 2 ^ 31 ∧ Counted h rest (call.apply h calls m)

theorem refines_call (href : Refines h table m) {call : HashTableCall K V}
    (hclones : call.Clones functions calls) (hcard : m.keys.card < 2 ^ 31)
    (hcard' : (call.apply h calls m).keys.card < 2 ^ 31) :
    ∃ answer table', table.call functions calls call = some (answer, table') ∧
      call.Answers h calls m answer ∧ Refines h table' (call.apply h calls m) := by
  cases call with
  | add key value =>
    have hadd := href.add hclones fun hadds => by
      rw [HashTableCall.apply, if_pos hadds] at hcard'
      exact hcard'
    exact ⟨_, _, rfl, congrArg HashTableAnswer.number hadd.1, hadd.2⟩
  | remove key =>
    obtain ⟨hstatus, hrefines⟩ := href.remove hcard calls key
    exact ⟨_, _, rfl, congrArg HashTableAnswer.bool hstatus, hrefines⟩
  | getItemValue key =>
    exact ⟨_, _, rfl, congrArg HashTableAnswer.value (href.getItemValue key), href⟩
  | setItemValue key value =>
    obtain ⟨hstatus, hrefines⟩ := href.setItemValue calls key value
    exact ⟨_, _, rfl, congrArg HashTableAnswer.bool hstatus, hrefines⟩
  | contains key => exact ⟨_, _, rfl, congrArg HashTableAnswer.bool (href.contains key), href⟩
  | containsKey key => exact ⟨_, _, rfl, congrArg HashTableAnswer.bool (href.contains key), href⟩
  | containsValue value => exact ⟨_, _, rfl, ⟨_, rfl, href.containsValue value⟩, href⟩
  | getKeys =>
    obtain ⟨⟨count, keys⟩, hkeys, hanswer⟩ := href.getKeys calls
    refine ⟨.keys count keys, table, by rw [HashTable.call, hkeys]; rfl, ?_, href⟩
    dsimp only [HashTableCall.Answers]
    split
    · next hgiven =>
      rw [if_pos hgiven] at hanswer
      exact ⟨keys, by rw [← hanswer.1], hanswer.2⟩
    · next hgiven =>
      rw [if_neg hgiven] at hanswer
      obtain ⟨rfl, rfl⟩ := Prod.mk.inj hanswer
      rfl
  | count => exact ⟨_, _, rfl, congrArg HashTableAnswer.number href.numOfElements, href⟩
  | clear =>
    obtain ⟨table', hclear, hrefines⟩ := href.clear calls
    exact ⟨.nothing, table', by rw [HashTable.call, hclear]; rfl, rfl, hrefines⟩

theorem refines_run (href : Refines h table m) {run : List (HashTableCall K V × Calls K V)}
    (hclones : ∀ call ∈ run, call.1.Clones functions call.2) (hcard : m.keys.card < 2 ^ 31)
    (hcounted : Counted h run m) :
    ∃ answers table', table.run functions run = some (answers, table') ∧
      AnswersAll h run m answers ∧ Refines h table' (mapBehind h run m) := by
  induction run generalizing table m with
  | nil => exact ⟨[], table, rfl, rfl, href⟩
  | cons call run ih =>
    obtain ⟨call, calls⟩ := call
    obtain ⟨hcard', hcounted⟩ := hcounted
    obtain ⟨answer, table₁, hcall, hanswer, href₁⟩ :=
      refines_call href (hclones _ List.mem_cons_self) hcard hcard'
    obtain ⟨answers, table', hrun, hanswers, href'⟩ :=
      ih href₁ (fun c hc => hclones c (List.mem_cons_of_mem _ hc)) hcard' hcounted
    refine ⟨answer :: answers, table', ?_, ⟨answer, answers, rfl, hanswer, hanswers⟩, href'⟩
    have hstep : table.run functions ((call, calls) :: run) =
        (table.call functions calls call).bind fun r =>
          (r.2.run functions run).bind fun r' => some (r.1 :: r'.1, r'.2) := rfl
    rw [hstep, hcall, Option.bind_some, hrun, Option.bind_some]

/-- A hash table is a finite map: each call answers as the map does, and in the end the pairs of the table,
each in the bucket of its hash, are the entries of the map. -/
theorem hashTable_refines (h : functions.Lawful) {run : List (HashTableCall K V × Calls K V)}
    (hclones : ∀ call ∈ run, call.1.Clones functions call.2) (hcounted : Counted h run ∅) :
    ∃ answers table, hashTableNew.run functions run = some (answers, table) ∧
      AnswersAll h run ∅ answers ∧ Refines h table (mapBehind h run ∅) :=
  refines_run refines_new hclones (by simp) hcounted

/-! ### The number of elements is an `int` -/

theorem bmod_lt (n : ℤ) : n.bmod (2 ^ 32) < 2 ^ 31 := by
  rw [Int.bmod_def]
  push_cast
  split <;> omega

theorem numOfElements_rehash (calloc : Bool) (numOfBuckets : ℕ) (table : HashTable K V) :
    (table.rehash functions calloc numOfBuckets).numOfElements = table.numOfElements := by
  dsimp only [HashTable.rehash]
  split_ifs <;> rfl

theorem numOfElements_add_lt (hlt : table.numOfElements < 2 ^ 31) :
    (table.add functions calls key value).2.numOfElements < 2 ^ 31 := by
  dsimp only [HashTable.add]
  generalize (if functions.keyClone then calls.keyClone else key) = kept
  generalize (if functions.valueClone then calls.valueClone else value) = keptValue
  split
  · exact hlt
  split
  · exact hlt
  split
  · exact hlt
  split
  · dsimp only [HashTable.setBucket]
    split
    · exact bmod_lt _
    · exact hlt
  · split
    · exact hlt
    · dsimp only
      split
      · rw [numOfElements_rehash]
        exact bmod_lt _
      · exact bmod_lt _

theorem numOfElements_remove_lt (hlt : table.numOfElements < 2 ^ 31) :
    (table.remove functions calls key).2.numOfElements < 2 ^ 31 := by
  dsimp only [HashTable.remove]
  split
  · exact hlt
  · split
    · exact bmod_lt _
    · dsimp only
      split
      · rw [numOfElements_rehash]
        exact bmod_lt _
      · exact bmod_lt _

theorem numOfElements_setItemValue_lt (hlt : table.numOfElements < 2 ^ 31) :
    (table.setItemValue functions calls key value).2.numOfElements < 2 ^ 31 := by
  dsimp only [HashTable.setItemValue]
  generalize (if functions.valueClone ∧ value ≠ default then calls.valueClone else value) = kept
  split
  · exact hlt
  split
  · exact hlt
  · split <;> exact hlt

theorem numOfElements_call_lt (hlt : table.numOfElements < 2 ^ 31) {call : HashTableCall K V}
    {answer : HashTableAnswer K V} {table' : HashTable K V}
    (hcall : table.call functions calls call = some (answer, table')) :
    table'.numOfElements < 2 ^ 31 := by
  cases call with
  | add key value =>
    obtain ⟨-, rfl⟩ := Prod.mk.inj (Option.some.inj hcall)
    exact numOfElements_add_lt hlt
  | remove key =>
    obtain ⟨-, rfl⟩ := Prod.mk.inj (Option.some.inj hcall)
    exact numOfElements_remove_lt hlt
  | setItemValue key value =>
    obtain ⟨-, rfl⟩ := Prod.mk.inj (Option.some.inj hcall)
    exact numOfElements_setItemValue_lt hlt
  | getKeys =>
    obtain ⟨_, -, heq⟩ := Option.map_eq_some_iff.mp hcall
    obtain ⟨-, rfl⟩ := Prod.mk.inj heq
    exact hlt
  | clear =>
    obtain ⟨table₁, hclear, heq⟩ := Option.map_eq_some_iff.mp hcall
    obtain ⟨-, rfl⟩ := Prod.mk.inj heq
    unfold HashTable.clear at hclear
    split at hclear
    · exact nomatch hclear
    · have hzero : (0 : ℤ) < 2 ^ 31 := by decide
      rw [← Option.some.inj hclear]
      dsimp only
      split
      · rw [numOfElements_rehash]
        exact hzero
      · exact hzero
  | getItemValue _ | contains _ | containsKey _ | containsValue _ | count =>
    obtain ⟨-, rfl⟩ := Prod.mk.inj (Option.some.inj hcall)
    exact hlt

theorem numOfElements_run_lt (hlt : table.numOfElements < 2 ^ 31)
    {run : List (HashTableCall K V × Calls K V)} {answers : List (HashTableAnswer K V)}
    {table' : HashTable K V} (hrun : table.run functions run = some (answers, table')) :
    table'.numOfElements < 2 ^ 31 := by
  induction run generalizing table answers with
  | nil =>
    obtain ⟨-, rfl⟩ := Prod.mk.inj (Option.some.inj hrun)
    exact hlt
  | cons call run ih =>
    obtain ⟨⟨answer, table₁⟩, hcall, hrest⟩ := Option.bind_eq_some_iff.mp hrun
    obtain ⟨⟨answers', table₂⟩, hrun', heq⟩ := Option.bind_eq_some_iff.mp hrest
    obtain ⟨-, rfl⟩ := Prod.mk.inj (Option.some.inj heq)
    exact ih (numOfElements_call_lt hlt hcall) hrun'

/-- Numbers as keys and as values, all in one chain, with a rehash from the second pair on. -/
def numberFunctions : HashTableFunctions ℕ ℕ where
  hash _ := 0
  keyCompare a b := a == b
  valueCompare a b := a == b
  keyClone := false
  valueClone := false
  idealRatio := 3
  idealRatio_pos := by decide
  tooFull elements _ := 1 < elements
  tooSparse _ _ := false

theorem numberFunctions_lawful : numberFunctions.Lawful where
  equivalence :=
    ⟨fun a => beq_self_eq_true a, fun h => beq_iff_eq.mpr (beq_iff_eq.mp h).symm,
      fun hab hbc => beq_iff_eq.mpr ((beq_iff_eq.mp hab).trans (beq_iff_eq.mp hbc))⟩
  hash_eq _ _ _ := rfl

theorem clones_numberFunctions (call : HashTableCall ℕ ℕ) (calls : Calls ℕ ℕ) :
    call.Clones numberFunctions calls := by
  cases call with
  | add key value => exact fun hclone => absurd hclone Bool.false_ne_true
  | _ => trivial

/-- The keys from `key` on are added, `n` of them. -/
def addNumbers (key : ℕ) : ℕ → List (HashTableCall ℕ ℕ × Calls ℕ ℕ)
  | 0 => []
  | n + 1 => (.add key 1, ⟨0, 0, true, true⟩) :: addNumbers (key + 1) n

/-- Two keys are added, the second one with a rehash, and found, changed and removed. -/
def numberCalls : List (HashTableCall ℕ ℕ × Calls ℕ ℕ) :=
  [.add 7 1, .add 10 5, .getItemValue 7, .setItemValue 10 2, .remove 7, .getItemValue 10].map
    fun call => (call, ⟨0, 0, true, true⟩)

theorem hashTable_refines_numbers : ∃ answers table,
    hashTableNew.run numberFunctions numberCalls = some (answers, table) ∧
      AnswersAll numberFunctions_lawful numberCalls ∅ answers ∧
      Refines numberFunctions_lawful table (mapBehind numberFunctions_lawful numberCalls ∅) := by
  refine hashTable_refines numberFunctions_lawful ?_ ?_
  · intro call hcall
    obtain ⟨_, -, rfl⟩ := List.mem_map.mp hcall
    exact clones_numberFunctions _ _
  · exact ⟨by decide, by decide, by decide, by decide, by decide, by decide, trivial⟩

theorem card_mapBehind_addNumbers {first n : ℕ} (hfirst : 0 < first)
    {m : Finmap fun _ : Quotient numberFunctions_lawful.setoid => ℕ}
    (hnot : ∀ key, first ≤ key → numberFunctions_lawful.classOf key ∉ m) :
    (mapBehind numberFunctions_lawful (addNumbers first n) m).keys.card = m.keys.card + n := by
  induction n generalizing first m with
  | zero => rfl
  | succ n ih =>
    have hadds : Adds numberFunctions_lawful ⟨0, 0, true, true⟩ first 1 m :=
      ⟨⟨hfirst.ne', one_ne_zero, hfirst.ne', one_ne_zero⟩, Or.inr rfl⟩
    have happly : HashTableCall.apply numberFunctions_lawful ⟨0, 0, true, true⟩ m (.add first 1) =
        m.insert (numberFunctions_lawful.classOf first) 1 := if_pos hadds
    rw [addNumbers, mapBehind, happly, ih (Nat.succ_pos first), card_keys, card_keys,
      Finmap.entries_insert_of_notMem (hnot first le_rfl), Multiset.card_cons]
    · omega
    · intro key hkey hmem
      obtain heq | hmem := Finmap.mem_insert.mp hmem
      · have hsame := HashTableFunctions.Lawful.classOf_eq_iff.mp heq
        have hsame : key = first := beq_iff_eq.mp hsame
        omega
      · exact hnot key (by omega) hmem

/-- With `2 ^ 31` pairs the number of elements is negative. -/
theorem hashTable_overflow :
    (∀ call ∈ addNumbers 1 (2 ^ 31), call.1.Clones numberFunctions call.2) ∧
      ¬ ∃ answers table,
        hashTableNew.run numberFunctions (addNumbers 1 (2 ^ 31)) = some (answers, table) ∧
          AnswersAll numberFunctions_lawful (addNumbers 1 (2 ^ 31)) ∅ answers ∧
          Refines numberFunctions_lawful table
            (mapBehind numberFunctions_lawful (addNumbers 1 (2 ^ 31)) ∅) := by
  constructor
  · exact fun call _ => clones_numberFunctions call.1 call.2
  · rintro ⟨answers, table, hrun, -, href⟩
    have hlt := numOfElements_run_lt (by decide) hrun
    have hcount := href.numOfElements
    rw [card_mapBehind_addNumbers Nat.one_pos fun _ _ => Finmap.notMem_empty, Finmap.keys_empty,
      Finset.card_empty] at hcount
    rw [hcount] at hlt
    omega

end FreeRDP.Collections
