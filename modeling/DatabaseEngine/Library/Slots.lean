import Mathlib.Data.List.Basic

/-!
# `DatabaseEngine.Library.Slots`: a table of slots that are looked up by a key

A slot is free, or has a key. The table is searched from its front.

* `lookup_eq_some_iff`, `lookup_eq_none_iff`: what is found, as long as no key is there twice.
* `Distinct.set`: a slot is taken for a key, or given up.
* `lookup_set_same`, `lookup_set_other`: what is found then.
-/

set_option autoImplicit false

namespace Library.Slots

universe u v

section
variable {α : Type u} {κ : Type v} [DecidableEq κ] {key : α → Option κ}

/-- The position of the first slot with a key. -/
def find (key : α → Option κ) (k : κ) (slots : List α) : Option Nat :=
  slots.findIdx? fun a => key a = some k

/-- The slot of a key. -/
def lookup (key : α → Option κ) (k : κ) (slots : List α) : Option α :=
  (find key k slots).bind fun i => slots[i]?

/-- No key is there twice. -/
def Distinct (key : α → Option κ) (slots : List α) : Prop :=
  ∀ (i j : Nat) (a b : α) (k : κ), slots[i]? = some a → slots[j]? = some b →
    key a = some k → key b = some k → i = j

variable {slots : List α} {k k' : κ} {i : Nat} {a old new : α}

/-- The position that a key finds. -/
theorem find_eq_some_iff (h : Distinct key slots) :
    find key k slots = some i ↔ ∃ a, slots[i]? = some a ∧ key a = some k := by
  constructor
  · intro hfind
    obtain ⟨hi, hkey, -⟩ := List.findIdx?_eq_some_iff_getElem.mp hfind
    exact ⟨slots[i], List.getElem?_eq_getElem hi, by simpa using hkey⟩
  · rintro ⟨a, hget, hkey⟩
    cases hfind : find key k slots with
    | none =>
      have hout := List.findIdx?_eq_none_iff.mp hfind a (List.mem_of_getElem? hget)
      exact absurd hkey (by simpa using hout)
    | some j =>
      obtain ⟨hj, hkey', -⟩ := List.findIdx?_eq_some_iff_getElem.mp hfind
      rw [h j i _ a k (List.getElem?_eq_getElem hj) hget (by simpa using hkey') hkey]

/-- What a key finds. -/
theorem lookup_eq_some_iff (h : Distinct key slots) :
    lookup key k slots = some a ↔ ∃ i : Nat, slots[i]? = some a ∧ key a = some k := by
  unfold lookup
  rw [Option.bind_eq_some_iff]
  constructor
  · rintro ⟨i, hfind, hget⟩
    obtain ⟨a', hget', hkey⟩ := (find_eq_some_iff h).mp hfind
    obtain rfl : a' = a := Option.some.inj (hget'.symm.trans hget)
    exact ⟨i, hget, hkey⟩
  · rintro ⟨i, hget, hkey⟩
    exact ⟨i, (find_eq_some_iff h).mpr ⟨a, hget, hkey⟩, hget⟩

/-- A key finds nothing when no slot has it. -/
theorem lookup_eq_none_iff (h : Distinct key slots) :
    lookup key k slots = none ↔ ∀ (i : Nat) (a : α), slots[i]? = some a → key a ≠ some k := by
  rw [Option.eq_none_iff_forall_ne_some]
  constructor
  · intro hnone i a hget hkey
    exact hnone a ((lookup_eq_some_iff h).mpr ⟨i, hget, hkey⟩)
  · intro hout a hlookup
    obtain ⟨i, hget, hkey⟩ := (lookup_eq_some_iff h).mp hlookup
    exact hout i a hget hkey

/-! ### Putting something into a slot -/

/-- One slot is written. -/
theorem getElem?_set_iff (hi : i < slots.length) (j : Nat) (b : α) :
    (slots.set i new)[j]? = some b ↔ (j = i ∧ b = new) ∨ (j ≠ i ∧ slots[j]? = some b) := by
  rw [List.getElem?_set]
  by_cases hj : i = j
  · subst hj
    simp [hi, eq_comm]
  · simp [hj, Ne.symm hj]

omit [DecidableEq κ] in
/-- A slot is taken for a key that no other has, or given up. -/
theorem Distinct.set (h : Distinct key slots) (hi : i < slots.length)
    (hfree : ∀ k, key new = some k → ∀ (j : Nat) (a : α), slots[j]? = some a → key a = some k →
      j = i) :
    Distinct key (slots.set i new) := by
  intro p q b c k hp hq hb hc
  rcases (getElem?_set_iff hi p b).mp hp with ⟨rfl, rfl⟩ | ⟨hpi, hp'⟩
  · rcases (getElem?_set_iff hi q c).mp hq with ⟨rfl, rfl⟩ | ⟨hqi, hq'⟩
    · rfl
    · exact absurd (hfree k hb q c hq' hc) hqi
  · rcases (getElem?_set_iff hi q c).mp hq with ⟨rfl, rfl⟩ | ⟨hqi, hq'⟩
    · exact absurd (hfree k hc p b hp' hb) hpi
    · exact h p q b c k hp' hq' hb hc

/-- A slot that was written is found by its new key. -/
theorem lookup_set_same (h : Distinct key (slots.set i new)) (hi : i < slots.length)
    (hnew : key new = some k) : lookup key k (slots.set i new) = some new :=
  (lookup_eq_some_iff h).mpr ⟨i, (getElem?_set_iff hi i new).mpr (.inl ⟨rfl, rfl⟩), hnew⟩

/-- A key that the slot neither had nor gets. -/
theorem lookup_set_other (h : Distinct key slots) (h' : Distinct key (slots.set i new))
    (hget : slots[i]? = some old) (hold : key old ≠ some k) (hnew : key new ≠ some k) :
    lookup key k (slots.set i new) = lookup key k slots := by
  have hi : i < slots.length := (List.getElem?_eq_some_iff.mp hget).1
  apply Option.ext
  intro a
  rw [lookup_eq_some_iff h', lookup_eq_some_iff h]
  constructor
  · rintro ⟨j, hj, hkey⟩
    rcases (getElem?_set_iff hi j a).mp hj with ⟨rfl, rfl⟩ | ⟨-, hj⟩
    · exact absurd hkey hnew
    · exact ⟨j, hj, hkey⟩
  · rintro ⟨j, hj, hkey⟩
    refine ⟨j, (getElem?_set_iff hi j a).mpr (.inr ⟨?_, hj⟩), hkey⟩
    rintro rfl
    rw [Option.some.inj (hget.symm.trans hj)] at hold
    exact hold hkey

/-- A key that is given up, and that no other slot has. -/
theorem lookup_set_none (h : Distinct key slots) (h' : Distinct key (slots.set i new))
    (hget : slots[i]? = some old) (hold : key old = some k) (hnew : key new ≠ some k) :
    lookup key k (slots.set i new) = none := by
  have hi : i < slots.length := (List.getElem?_eq_some_iff.mp hget).1
  rw [lookup_eq_none_iff h']
  intro j a hj hkey
  rcases (getElem?_set_iff hi j a).mp hj with ⟨rfl, rfl⟩ | ⟨hji, hj⟩
  · exact hnew hkey
  · exact hji (h j i a old k hj hget hkey hold)

end

end Library.Slots
