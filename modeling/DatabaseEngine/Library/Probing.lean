import Mathlib.Data.List.Basic
import Mathlib.Data.Nat.Find
import Mathlib.Data.Nat.Bitwise
import Mathlib.Data.Nat.ModEq

/-!
# `DatabaseEngine.Library.Probing`: open addressing with linear probing

A table of buckets, each empty or with the number of one entry; the entries have a hash each,
and an entry lies at the first bucket that was free from its hash on, round the table. The size
of the table is a power of two, so that a mask takes a hash to its bucket.

* `probe_eq`: probing stops at the first bucket on the walk that it accepts.
* `Probed`: every entry is found from its hash without passing an empty bucket.
* `Probed.lookup`: a lookup finds the entry that is looked for, or that there is none.
* `Probed.place`: placing the next entry; `rehash_probed`: all of them in a larger table.
* `walkFrom_rehash`: a walk from a hash meets the entries of this hash in their order.
-/

set_option autoImplicit false

namespace Library

/-- The first bucket at which to stop, from `i` on round a table of `size`. -/
def probe (size : Nat) (stop : Nat → Bool) : Nat → Nat → Option Nat
  | 0, _ => none
  | fuel + 1, i => if stop i then some i else probe size stop fuel ((i + 1) &&& (size - 1))

/-- What a bucket holds: the number of an entry and one, or zero. -/
def bucket (buckets : List Nat) (i : Nat) : Nat := buckets.getD i 0

/-- The entry with this hash that is looked for. -/
def lookup (buckets : List Nat) (wanted : Nat → Bool) (hash : Nat) : Option Nat :=
  let stop := fun i => bucket buckets i == 0 || wanted (bucket buckets i - 1)
  match probe buckets.length stop buckets.length (hash &&& (buckets.length - 1)) with
  | none => none
  | some i => if bucket buckets i = 0 then none else some (bucket buckets i - 1)

/-- The entries on the walk from a bucket to the first empty one. -/
def walk (buckets : List Nat) : Nat → Nat → List Nat
  | 0, _ => []
  | fuel + 1, i =>
    if bucket buckets i = 0 then []
    else (bucket buckets i - 1) :: walk buckets fuel ((i + 1) &&& (buckets.length - 1))

/-- The entries on the walk from a hash. -/
def walkFrom (buckets : List Nat) (hash : Nat) : List Nat :=
  walk buckets buckets.length (hash &&& (buckets.length - 1))

/-- Puts an entry into the first empty bucket. -/
def place (buckets : List Nat) (hash entry : Nat) : List Nat :=
  match probe buckets.length (fun i => bucket buckets i == 0) buckets.length
    (hash &&& (buckets.length - 1)) with
  | none => buckets
  | some i => buckets.set i (entry + 1)

/-- Puts the entries with these hashes into an empty table. -/
def rehash (size : Nat) (hashes : List Nat) : List Nat :=
  (hashes.zipIdx).foldl (fun buckets entry => place buckets entry.1 entry.2)
    (List.replicate size 0)

/-! ### Probing -/

section
variable {size : Nat}

/-- The mask of a power of two is a remainder. -/
theorem and_mask (hsize : ∃ e, size = 2 ^ e) (hash : Nat) : hash &&& (size - 1) = hash % size := by
  obtain ⟨e, rfl⟩ := hsize
  exact Nat.and_two_pow_sub_one_eq_mod hash e

/-- Probing stops at the first bucket that it accepts. -/
theorem probe_eq (hsize : ∃ e, size = 2 ^ e) {stop : Nat → Bool} {start k fuel : Nat}
    (hstop : stop ((start + k) % size) = true)
    (hpass : ∀ j < k, stop ((start + j) % size) = false) (hfuel : k < fuel) :
    probe size stop fuel (start % size) = some ((start + k) % size) := by
  induction fuel generalizing start k with
  | zero => omega
  | succ fuel ih =>
    unfold probe
    cases k with
    | zero =>
      rw [Nat.add_zero] at hstop
      rw [if_pos hstop, Nat.add_zero]
    | succ k =>
      have hfirst := hpass 0 (Nat.succ_pos k)
      rw [Nat.add_zero] at hfirst
      rw [if_neg (by simp [hfirst]), and_mask hsize, Nat.mod_add_mod]
      have hshift : ∀ j, start + 1 + j = start + (j + 1) := by omega
      rw [ih (k := k) (by rw [hshift]; exact hstop)
        (fun j hj => by rw [hshift]; exact hpass (j + 1) (by omega)) (by omega), hshift]

end

/-! ### Tables -/

section
variable {buckets : List Nat} {hashes : Nat → Nat} {count : Nat}

/-- The entries below `count` are in the table, each where its hash leads to, and there is
room. -/
structure Probed (buckets : List Nat) (hashes : Nat → Nat) (count : Nat) : Prop where
  size : ∃ e, buckets.length = 2 ^ e
  below : ∀ b ∈ buckets, b ≤ count
  placed : ∀ entry < count, ∃ k,
    bucket buckets ((hashes entry + k) % buckets.length) = entry + 1 ∧
      ∀ j < k, bucket buckets ((hashes entry + j) % buckets.length) ≠ 0
  empty : buckets.count 0 + count = buckets.length

/-- There is a bucket. -/
theorem Probed.pos (h : Probed buckets hashes count) : 0 < buckets.length := by
  obtain ⟨e, he⟩ := h.size
  rw [he]
  exact Nat.two_pow_pos e

/-- Only the hashes of the entries matter. -/
theorem Probed.congr {hashes' : Nat → Nat} (h : Probed buckets hashes count)
    (heq : ∀ entry < count, hashes' entry = hashes entry) : Probed buckets hashes' count :=
  ⟨h.size, h.below, fun entry hentry => by rw [heq entry hentry]; exact h.placed entry hentry,
    h.empty⟩

/-- A bucket that is taken is one of the table's. -/
theorem bucket_lt {i : Nat} (h : bucket buckets i ≠ 0) :
    i < buckets.length ∧ bucket buckets i ∈ buckets := by
  unfold bucket at h ⊢
  rw [List.getD_eq_getElem?_getD] at h ⊢
  cases hi : buckets[i]? with
  | none => simp [hi] at h
  | some b =>
    obtain ⟨hlt, rfl⟩ := List.getElem?_eq_some_iff.mp hi
    exact ⟨hlt, by simp⟩

/-- Some bucket on the walk from any hash is empty, if the table is not full. -/
theorem exists_empty (hroom : 0 < buckets.count 0) (hash : Nat) :
    ∃ k < buckets.length, bucket buckets ((hash + k) % buckets.length) = 0 := by
  obtain ⟨i, hi, hzero⟩ := List.getElem_of_mem (List.count_pos_iff.mp hroom)
  refine ⟨(i + buckets.length - hash % buckets.length) % buckets.length,
    Nat.mod_lt _ (by omega), ?_⟩
  have hmod := Nat.mod_lt hash (show 0 < buckets.length by omega)
  have hat : (hash + (i + buckets.length - hash % buckets.length) % buckets.length) %
      buckets.length = i := by
    rw [Nat.add_mod, Nat.mod_mod, ← Nat.add_mod]
    have hdiv := Nat.mod_add_div hash buckets.length
    have heq : hash + (i + buckets.length - hash % buckets.length) =
        i + buckets.length * (hash / buckets.length + 1) := by
      rw [Nat.mul_add, Nat.mul_one]
      omega
    rw [heq, Nat.add_mul_mod_self_left, Nat.mod_eq_of_lt hi]
  rw [hat]
  simp [bucket, List.getD_eq_getElem?_getD, hi, hzero]

/-- The first bucket of a walk at which to stop, where one of the buckets is empty and an empty
bucket stops it. -/
theorem probe_first (hsize : ∃ e, buckets.length = 2 ^ e) (hroom : 0 < buckets.count 0)
    {stop : Nat → Bool} (hstop : ∀ i, bucket buckets i = 0 → stop i = true) (hash : Nat) :
    ∃ k, probe buckets.length stop buckets.length (hash &&& (buckets.length - 1)) =
        some ((hash + k) % buckets.length) ∧
      stop ((hash + k) % buckets.length) = true ∧
      ∀ j < k, stop ((hash + j) % buckets.length) = false := by
  obtain ⟨k, hk, hzero⟩ := exists_empty hroom hash
  have hex : ∃ k, stop ((hash + k) % buckets.length) = true := ⟨k, hstop _ hzero⟩
  refine ⟨Nat.find hex, ?_, Nat.find_spec hex, fun j hj => by
    simpa using Nat.find_min hex hj⟩
  rw [and_mask hsize]
  exact probe_eq hsize (Nat.find_spec hex) (fun j hj => by simpa using Nat.find_min hex hj)
    (Nat.lt_of_le_of_lt (Nat.find_min' hex (hstop _ hzero)) hk)

/-- Nothing is found where no bucket is taken. -/
theorem lookup_replicate {n : Nat} {wanted : Nat → Bool} {hash : Nat} :
    lookup (List.replicate n 0) wanted hash = none := by
  have hbucket : ∀ i, bucket (List.replicate n 0) i = 0 := by
    intro i
    unfold bucket
    rw [List.getD_eq_getElem?_getD, List.getElem?_replicate]
    split
    · rfl
    · rfl
  unfold lookup
  dsimp only
  split
  · rfl
  · rw [if_pos (hbucket _)]

/-- A lookup finds an entry that is wanted, or there is none with this hash. -/
theorem Probed.lookup (h : Probed buckets hashes count) (hroom : 0 < buckets.count 0)
    (wanted : Nat → Bool) (hash : Nat) :
    (∃ entry < count, Library.lookup buckets wanted hash = some entry ∧ wanted entry = true) ∨
      Library.lookup buckets wanted hash = none ∧
        ∀ entry < count, hashes entry = hash → wanted entry = false := by
  obtain ⟨k, hprobe, hstop, hpass⟩ := @probe_first _ h.size hroom
    (fun i => bucket buckets i == 0 || wanted (bucket buckets i - 1)) (fun i hi => by simp [hi])
    hash
  simp only [Library.lookup, hprobe]
  by_cases hzero : bucket buckets ((hash + k) % buckets.length) = 0
  · refine .inr ⟨if_pos hzero, fun entry hentry heq => ?_⟩
    subst heq
    obtain ⟨k', hat, hbefore⟩ := h.placed entry hentry
    by_contra hwanted
    rw [Bool.not_eq_false] at hwanted
    -- the entry lies neither behind nor before the empty bucket
    rcases Nat.lt_trichotomy k' k with hlt | rfl | hlt
    · have hno := hpass k' hlt
      simp [hat, hwanted] at hno
    · rw [hat] at hzero
      exact absurd hzero (by simp)
    · exact absurd hzero (hbefore k hlt)
  · have hwanted : wanted (bucket buckets ((hash + k) % buckets.length) - 1) = true := by
      simpa [hzero] using hstop
    refine .inl ⟨_, ?_, if_neg hzero, hwanted⟩
    have hle := h.below _ (bucket_lt hzero).2
    omega

/-- One bucket is written. -/
theorem bucket_set {i j b : Nat} (hi : i < buckets.length) :
    bucket (buckets.set i b) j = if j = i then b else bucket buckets j := by
  unfold bucket
  rw [List.getD_eq_getElem?_getD, List.getD_eq_getElem?_getD, List.getElem?_set]
  by_cases hij : i = j
  · subst hij
    simp [hi]
  · rw [if_neg hij, if_neg (Ne.symm hij)]

/-- An empty bucket fewer. -/
theorem count_set_empty {i b : Nat} (hi : i < buckets.length) (hzero : bucket buckets i = 0)
    (hb : b ≠ 0) : (buckets.set i b).count 0 + 1 = buckets.count 0 := by
  induction buckets generalizing i with
  | nil => exact absurd hi (by simp)
  | cons head rest ih =>
    cases i with
    | zero =>
      have hhead : head = 0 := hzero
      simp [hhead, hb]
    | succ i =>
      have hrest := ih (i := i) (by simpa using hi) hzero
      simp only [List.set_cons_succ, List.count_cons]
      omega

/-- The next entry placed. -/
theorem Probed.place (h : Probed buckets hashes count) (hroom : 0 < buckets.count 0) :
    Probed (Library.place buckets (hashes count) count) hashes (count + 1) ∧
      (Library.place buckets (hashes count) count).length = buckets.length := by
  obtain ⟨k, hprobe, hstop, hpass⟩ := @probe_first _ h.size hroom (fun i => bucket buckets i == 0)
    (fun i hi => by simp [hi]) (hashes count)
  have hzero : bucket buckets ((hashes count + k) % buckets.length) = 0 := by simpa using hstop
  have hlt := Nat.mod_lt (hashes count + k) h.pos
  simp only [Library.place, hprobe]
  refine ⟨⟨?_, ?_, ?_, ?_⟩, List.length_set⟩
  · rw [List.length_set]
    exact h.size
  · intro b hb
    rcases List.mem_or_eq_of_mem_set hb with hb | rfl
    · exact Nat.le_succ_of_le (h.below b hb)
    · exact Nat.le_refl _
  · intro entry hentry
    rw [List.length_set]
    simp only [bucket_set hlt]
    rcases Nat.lt_succ_iff_lt_or_eq.mp hentry with hentry | rfl
    · obtain ⟨k', hat, hbefore⟩ := h.placed entry hentry
      refine ⟨k', ?_, fun j hj => ?_⟩
      · rw [if_neg, hat]
        intro heq
        rw [heq, hzero] at hat
        exact absurd hat (by simp)
      · split
        · exact Nat.succ_ne_zero count
        · exact hbefore j hj
    · refine ⟨k, if_pos rfl, fun j hj => ?_⟩
      split
      · exact Nat.succ_ne_zero entry
      · simpa using hpass j hj
  · have hcount := count_set_empty hlt hzero (show count + 1 ≠ 0 by omega)
    have hempty := h.empty
    rw [List.length_set]
    omega

end

/-! ### A larger table -/

/-- An empty table. -/
theorem probed_empty {size : Nat} (hsize : ∃ e, size = 2 ^ e) (hashes : Nat → Nat) :
    Probed (List.replicate size 0) hashes 0 where
  size := by simpa using hsize
  below b hb := by rw [(List.mem_replicate.mp hb).2]
  placed entry hentry := absurd hentry (by omega)
  empty := by simp

/-- Entries placed one after another. -/
theorem foldl_place {buckets : List Nat} {hashes : Nat → Nat} {count : Nat} {rest : List Nat}
    (h : Probed buckets hashes count) (hroom : count + rest.length < buckets.length)
    (hrest : ∀ k (hk : k < rest.length), rest[k] = hashes (count + k)) :
    let placed := (rest.zipIdx count).foldl (fun buckets entry => place buckets entry.1 entry.2)
      buckets
    Probed placed hashes (count + rest.length) ∧ placed.length = buckets.length := by
  induction rest generalizing buckets count with
  | nil => exact ⟨h, rfl⟩
  | cons hash rest ih =>
    have hempty := h.empty
    simp only [List.length_cons] at hroom
    have hhash : hash = hashes count := hrest 0 (by simp)
    obtain ⟨hplaced, hlength⟩ := h.place (by omega)
    have hnext := ih hplaced (by rw [hlength]; omega) fun k hk => by
      have hk' := hrest (k + 1) (by simpa using hk)
      simpa [Nat.add_assoc, Nat.add_comm 1] using hk'
    rw [hlength] at hnext
    simp only [List.zipIdx_cons, List.foldl_cons, hhash, List.length_cons]
    rw [Nat.add_comm rest.length 1, ← Nat.add_assoc]
    exact hnext

/-- All the entries in a table with room for them. -/
theorem rehash_probed {size : Nat} {hashes : List Nat} (hsize : ∃ e, size = 2 ^ e)
    (hroom : hashes.length < size) :
    Probed (rehash size hashes) (hashes.getD · 0) hashes.length ∧
      (rehash size hashes).length = size := by
  have hall := foldl_place (probed_empty hsize (hashes.getD · 0))
    (by simpa using hroom) fun k hk => by simp [List.getD_eq_getElem?_getD, hk]
  simpa [rehash] using hall

/-! ### Walks -/

section
variable {buckets : List Nat} {hashes : Nat → Nat} {count : Nat}

/-- A walk reads the buckets before the first empty one. -/
theorem walk_eq (hsize : ∃ e, buckets.length = 2 ^ e) {start k fuel : Nat}
    (hempty : bucket buckets ((start + k) % buckets.length) = 0)
    (hbefore : ∀ j < k, bucket buckets ((start + j) % buckets.length) ≠ 0) (hfuel : k < fuel) :
    walk buckets fuel (start % buckets.length) =
      (List.range k).map fun j => bucket buckets ((start + j) % buckets.length) - 1 := by
  induction fuel generalizing start k with
  | zero => omega
  | succ fuel ih =>
    unfold walk
    cases k with
    | zero =>
      rw [Nat.add_zero] at hempty
      simp [hempty]
    | succ k =>
      have hfirst := hbefore 0 (Nat.succ_pos k)
      have hshift : ∀ j, start + 1 + j = start + (j + 1) := by omega
      rw [Nat.add_zero] at hfirst
      rw [if_neg hfirst, and_mask hsize, Nat.mod_add_mod,
        ih (k := k) (by rw [hshift]; exact hempty)
          (fun j hj => by rw [hshift]; exact hbefore (j + 1) (by omega)) (by omega),
        List.range_succ_eq_map, List.map_cons, List.map_map]
      simp only [hshift, Function.comp_def, Nat.succ_eq_add_one, Nat.add_zero]

/-- The first empty bucket from a hash on, and the walk that ends there. -/
theorem walkFrom_eq (hsize : ∃ e, buckets.length = 2 ^ e) (hroom : 0 < buckets.count 0)
    (hash : Nat) :
    ∃ k < buckets.length, bucket buckets ((hash + k) % buckets.length) = 0 ∧
      (∀ j < k, bucket buckets ((hash + j) % buckets.length) ≠ 0) ∧
      walkFrom buckets hash =
        (List.range k).map fun j => bucket buckets ((hash + j) % buckets.length) - 1 := by
  obtain ⟨k, hk, hzero⟩ := exists_empty hroom hash
  have hex : ∃ k, bucket buckets ((hash + k) % buckets.length) = 0 := ⟨k, hzero⟩
  have hlt : Nat.find hex < buckets.length := Nat.lt_of_le_of_lt (Nat.find_min' hex hzero) hk
  refine ⟨Nat.find hex, hlt, Nat.find_spec hex, fun j hj => Nat.find_min hex hj, ?_⟩
  unfold walkFrom
  rw [and_mask hsize]
  exact walk_eq hsize (Nat.find_spec hex) (fun j hj => Nat.find_min hex hj) hlt

/-- Each entry is in one bucket, and a walk meets the entries of its hash in their order. -/
structure InOrder (buckets : List Nat) (hashes : Nat → Nat) (count : Nat) : Prop where
  once : ∀ i j, bucket buckets i ≠ 0 → bucket buckets i = bucket buckets j → i = j
  walk : ∀ hash, (walkFrom buckets hash).filter (fun entry => hashes entry == hash) =
    (List.range count).filter fun entry => hashes entry == hash

/-- Steps that lead from one start to one bucket are the same. -/
theorem add_mod_inj {size start j k : Nat} (hj : j < size) (hk : k < size)
    (h : (start + j) % size = (start + k) % size) : j = k := by
  have hmod : j ≡ k [MOD size] := Nat.ModEq.add_left_cancel' start h
  rw [Nat.ModEq, Nat.mod_eq_of_lt hj, Nat.mod_eq_of_lt hk] at hmod
  exact hmod

/-- Behind the first empty bucket lies no entry of the hash. -/
theorem Probed.behind (h : Probed buckets hashes count) (ho : InOrder buckets hashes count)
    {hash k j : Nat} (hempty : bucket buckets ((hash + k) % buckets.length) = 0)
    (hk : k < j) (hj : j < buckets.length)
    (hfull : bucket buckets ((hash + j) % buckets.length) ≠ 0) :
    hashes (bucket buckets ((hash + j) % buckets.length) - 1) ≠ hash := by
  intro heq
  have hle := h.below _ (bucket_lt hfull).2
  obtain ⟨k', hat, hbefore⟩ :=
    h.placed (bucket buckets ((hash + j) % buckets.length) - 1) (by omega)
  rw [heq] at hat hbefore
  have hlt : k' < k := by
    rcases Nat.lt_trichotomy k' k with hlt | rfl | hlt
    · exact hlt
    · rw [hempty] at hat
      omega
    · exact absurd hempty (hbefore k hlt)
  have hsame := ho.once ((hash + k') % buckets.length) ((hash + j) % buckets.length)
    (by omega) (by omega)
  have := add_mod_inj (by omega) hj hsame
  omega

/-- The next entry placed is met last among those of its hash. -/
theorem Probed.place_inOrder (h : Probed buckets hashes count) (ho : InOrder buckets hashes count)
    (hroom : 1 < buckets.count 0) :
    InOrder (Library.place buckets (hashes count) count) hashes (count + 1) := by
  obtain ⟨k, hprobe, hstop, hpass⟩ := @probe_first _ h.size (by omega)
    (fun i => bucket buckets i == 0) (fun i hi => by simp [hi]) (hashes count)
  have hzero : bucket buckets ((hashes count + k) % buckets.length) = 0 := by simpa using hstop
  have hlt := Nat.mod_lt (hashes count + k) h.pos
  simp only [Library.place, hprobe]
  generalize hi : (hashes count + k) % buckets.length = i at hzero hlt
  have hnew : ∀ j, bucket buckets j ≠ count + 1 := by
    intro j hj
    have := h.below _ (bucket_lt (by omega : bucket buckets j ≠ 0)).2
    omega
  constructor
  · intro j j' hj heq
    rw [bucket_set hlt, bucket_set hlt] at heq
    rw [bucket_set hlt] at hj
    split at heq <;> split at heq
    · omega
    · exact absurd heq.symm (hnew j')
    · exact absurd heq (hnew j)
    · rename_i hne _
      rw [if_neg hne] at hj
      exact ho.once j j' hj heq
  · intro hash
    have hroom' : 0 < (buckets.set i (count + 1)).count 0 := by
      have := count_set_empty hlt hzero (show count + 1 ≠ 0 by omega)
      omega
    have hsize' : ∃ e, (buckets.set i (count + 1)).length = 2 ^ e := by
      rw [List.length_set]
      exact h.size
    obtain ⟨m, hm, hmzero, hmbefore, hwalk⟩ := walkFrom_eq h.size (by omega) hash
    obtain ⟨m', hm', hmzero', hmbefore', hwalk'⟩ := walkFrom_eq hsize' hroom' hash
    simp only [List.length_set, bucket_set hlt] at hm' hmzero' hmbefore' hwalk'
    have hold := ho.walk hash
    rw [hwalk] at hold
    rw [hwalk', List.range_succ, List.filter_append, ← hold]
    have hunchanged : ∀ j < m, (hash + j) % buckets.length ≠ i := by
      rintro j hj rfl
      exact hmbefore j hj hzero
    by_cases hend : (hash + m) % buckets.length = i
    · -- the entry ends the walk, and the walk goes on behind it
      have hmm' : m < m' := by
        by_contra hle
        rcases Nat.lt_or_eq_of_le (Nat.le_of_not_lt hle) with hlt' | rfl
        · rw [if_neg (hunchanged m' hlt')] at hmzero'
          exact hmbefore m' hlt' hmzero'
        · rw [if_pos hend] at hmzero'
          omega
      obtain ⟨more, rfl⟩ := Nat.exists_eq_add_of_lt hmm'
      rw [Nat.add_assoc, List.range_add, List.map_append, List.filter_append, List.range_succ_eq_map]
      have hfront : (List.range m).map (fun j => (if (hash + j) % buckets.length = i then count + 1
          else bucket buckets ((hash + j) % buckets.length)) - 1) =
          (List.range m).map fun j => bucket buckets ((hash + j) % buckets.length) - 1 :=
        List.map_congr_left fun j hj => by rw [if_neg (hunchanged j (List.mem_range.mp hj))]
      have hmore : ((List.range more).map fun j =>
          (if (hash + (m + (j + 1))) % buckets.length = i then count + 1
            else bucket buckets ((hash + (m + (j + 1))) % buckets.length)) - 1).filter
              (fun entry => hashes entry == hash) = [] := by
        rw [List.filter_eq_nil_iff]
        intro entry hentry
        obtain ⟨j, hj, rfl⟩ := List.mem_map.mp hentry
        have hjm := List.mem_range.mp hj
        have hne : (hash + (m + (j + 1))) % buckets.length ≠ i := by
          intro heq
          have := add_mod_inj (by omega) (by omega) (heq.trans hend.symm)
          omega
        have hfull := hmbefore' (m + (j + 1)) (by omega)
        rw [if_neg hne] at hfull ⊢
        simpa using h.behind ho hmzero (by omega) (by omega) hfull
      simp only [List.map_cons, List.map_map, Function.comp_def, Nat.add_zero, hend, if_true,
        Nat.add_sub_cancel, hfront] at hmore ⊢
      rw [List.filter_cons, hmore, List.filter_cons, List.filter_nil]
    · -- the walk from this hash ends elsewhere
      have hmm' : m' = m := by
        rcases Nat.lt_trichotomy m' m with hlt' | heq | hlt'
        · have hne := hunchanged m' hlt'
          rw [if_neg hne] at hmzero'
          exact absurd hmzero' (hmbefore m' hlt')
        · exact heq
        · have hfull := hmbefore' m hlt'
          rw [if_neg hend] at hfull
          exact absurd hmzero hfull
      subst hmm'
      have hother : hashes count ≠ hash := by
        rintro rfl
        have hkm : k = m' := by
          rcases Nat.lt_trichotomy k m' with hlt' | heq | hlt'
          · have := hmbefore k hlt'
            rw [hi] at this
            exact absurd hzero this
          · exact heq
          · have := hpass m' hlt'
            simp [hmzero] at this
        exact hend (hkm ▸ hi)
      have hsame : (List.range m').map (fun j => (if (hash + j) % buckets.length = i then count + 1
          else bucket buckets ((hash + j) % buckets.length)) - 1) =
          (List.range m').map fun j => bucket buckets ((hash + j) % buckets.length) - 1 :=
        List.map_congr_left fun j hj => by rw [if_neg (hunchanged j (List.mem_range.mp hj))]
      rw [hsame]
      simp [hother]

/-- A table without entries. -/
theorem inOrder_empty {size : Nat} (hsize : ∃ e, size = 2 ^ e) (hashes : Nat → Nat) :
    InOrder (List.replicate size 0) hashes 0 where
  once i j hi := absurd (by simp [bucket]) hi
  walk hash := by
    obtain ⟨e, rfl⟩ := hsize
    have hpos := Nat.two_pow_pos e
    obtain ⟨k, -, -, hbefore, hwalk⟩ := @walkFrom_eq (List.replicate (2 ^ e) 0) ⟨e, by simp⟩
      (by simpa using hpos) hash
    have hk : k = 0 := by
      by_contra hk
      exact hbefore 0 (by omega) (by simp [bucket])
    rw [hwalk, hk]
    rfl

/-- Entries placed one after another are met in their order. -/
theorem foldl_place_inOrder {rest : List Nat} (h : Probed buckets hashes count)
    (ho : InOrder buckets hashes count) (hroom : count + rest.length < buckets.length)
    (hrest : ∀ k (hk : k < rest.length), rest[k] = hashes (count + k)) :
    InOrder ((rest.zipIdx count).foldl (fun buckets entry => place buckets entry.1 entry.2) buckets)
      hashes (count + rest.length) := by
  induction rest generalizing buckets count with
  | nil => exact ho
  | cons hash rest ih =>
    have hempty := h.empty
    simp only [List.length_cons] at hroom
    have hhash : hash = hashes count := hrest 0 (by simp)
    obtain ⟨hplaced, hlength⟩ := h.place (by omega)
    have hnext := ih hplaced (h.place_inOrder ho (by omega)) (by rw [hlength]; omega)
      fun k hk => by
        have hk' := hrest (k + 1) (by simpa using hk)
        simpa [Nat.add_assoc, Nat.add_comm 1] using hk'
    simp only [List.zipIdx_cons, List.foldl_cons, hhash, List.length_cons]
    rw [Nat.add_comm rest.length 1, ← Nat.add_assoc]
    exact hnext

/-- A walk from a hash meets the entries of this hash in their order. -/
theorem walkFrom_rehash {size : Nat} {hashes : List Nat} (hsize : ∃ e, size = 2 ^ e)
    (hroom : hashes.length < size) (hash : Nat) :
    (walkFrom (rehash size hashes) hash).filter (fun entry => hashes.getD entry 0 == hash) =
      (List.range hashes.length).filter fun entry => hashes.getD entry 0 == hash := by
  have hall := foldl_place_inOrder (probed_empty hsize (hashes.getD · 0))
    (inOrder_empty hsize _) (by simpa using hroom)
    fun k hk => by simp [List.getD_eq_getElem?_getD, hk]
  simpa [rehash] using hall.walk hash

end

end Library
