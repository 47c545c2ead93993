/-
The static and the dynamic table.

Index 1 is the first entry of the static table, and behind its last the dynamic table begins with
its newest entry.
-/
import Mathlib.Algebra.Order.Ring.Nat
import ZeroDds.Lib.Bytes

namespace ZeroDds.Hpack

structure HeaderField where
  name : String
  value : String
deriving DecidableEq

def HeaderField.size (h : HeaderField) : Nat :=
  32 + (utf8Bytes h.name).length + (utf8Bytes h.value).length

def staticTable : List HeaderField :=
  [⟨":authority", ""⟩, ⟨":method", "GET"⟩, ⟨":method", "POST"⟩, ⟨":path", "/"⟩,
    ⟨":path", "/index.html"⟩, ⟨":scheme", "http"⟩, ⟨":scheme", "https"⟩, ⟨":status", "200"⟩,
    ⟨":status", "204"⟩, ⟨":status", "206"⟩, ⟨":status", "304"⟩, ⟨":status", "400"⟩,
    ⟨":status", "404"⟩, ⟨":status", "500"⟩, ⟨"accept-charset", ""⟩,
    ⟨"accept-encoding", "gzip, deflate"⟩, ⟨"accept-language", ""⟩, ⟨"accept-ranges", ""⟩,
    ⟨"accept", ""⟩, ⟨"access-control-allow-origin", ""⟩, ⟨"age", ""⟩, ⟨"allow", ""⟩,
    ⟨"authorization", ""⟩, ⟨"cache-control", ""⟩, ⟨"content-disposition", ""⟩,
    ⟨"content-encoding", ""⟩, ⟨"content-language", ""⟩, ⟨"content-length", ""⟩,
    ⟨"content-location", ""⟩, ⟨"content-range", ""⟩, ⟨"content-type", ""⟩, ⟨"cookie", ""⟩,
    ⟨"date", ""⟩, ⟨"etag", ""⟩, ⟨"expect", ""⟩, ⟨"expires", ""⟩, ⟨"from", ""⟩, ⟨"host", ""⟩,
    ⟨"if-match", ""⟩, ⟨"if-modified-since", ""⟩, ⟨"if-none-match", ""⟩, ⟨"if-range", ""⟩,
    ⟨"if-unmodified-since", ""⟩, ⟨"last-modified", ""⟩, ⟨"link", ""⟩, ⟨"location", ""⟩,
    ⟨"max-forwards", ""⟩, ⟨"proxy-authenticate", ""⟩, ⟨"proxy-authorization", ""⟩, ⟨"range", ""⟩,
    ⟨"referer", ""⟩, ⟨"refresh", ""⟩, ⟨"retry-after", ""⟩, ⟨"server", ""⟩, ⟨"set-cookie", ""⟩,
    ⟨"strict-transport-security", ""⟩, ⟨"transfer-encoding", ""⟩, ⟨"user-agent", ""⟩, ⟨"vary", ""⟩,
    ⟨"via", ""⟩, ⟨"www-authenticate", ""⟩]

structure Table where
  dynamic : List HeaderField
  size : Nat
  maxSize : Nat
deriving DecidableEq

def evict (tooLarge : Nat → Bool) : Nat → List HeaderField → Nat → List HeaderField × Nat
  | 0, dynamic, size => (dynamic, size)
  | fuel + 1, dynamic, size =>
    if tooLarge size then
      match dynamic.getLast? with
      | some removed => evict tooLarge fuel dynamic.dropLast (size - removed.size)
      | none => (dynamic, size)
    else (dynamic, size)

namespace Table

def new (maxSize : Nat) : Table := ⟨[], 0, maxSize⟩

variable (t : Table)

def add (field : HeaderField) : Table :=
  let newSize := field.size
  if newSize > t.maxSize then { t with dynamic := [], size := 0 }
  else
    let (dynamic, size) := evict (fun size => size + newSize > t.maxSize) t.dynamic.length
      t.dynamic t.size
    { t with
      dynamic := field :: dynamic
      size := size + newSize }

def get (index : Nat) : Option HeaderField :=
  if index = 0 then none
  else if index ≤ staticTable.length then staticTable[index - 1]?
  else t.dynamic[index - staticTable.length - 1]?

end Table

def scan (name value : String) : List HeaderField → Nat → Option Nat → Nat ⊕ Option Nat
  | [], _, nameOnly => .inr nameOnly
  | e :: rest, idx, nameOnly =>
    if e.name = name then
      if e.value = value then .inl idx
      else scan name value rest (idx + 1) (nameOnly.or (some idx))
    else scan name value rest (idx + 1) nameOnly

namespace Table

variable (t : Table)

def find (name value : String) : Option (Nat × Bool) :=
  match scan name value staticTable 1 none with
  | .inl idx => some (idx, true)
  | .inr nameOnly =>
    match scan name value t.dynamic (staticTable.length + 1) nameOnly with
    | .inl idx => some (idx, true)
    | .inr nameOnly => nameOnly.map fun idx => (idx, false)

def setMaxSize (newMax : Nat) : Table :=
  let (dynamic, size) := evict (fun size => size > newMax) t.dynamic.length t.dynamic t.size
  ⟨dynamic, size, newMax⟩

end Table

def totalSize (dynamic : List HeaderField) : Nat := (dynamic.map HeaderField.size).sum

theorem evict_spec (tooLarge : Nat → Bool) {fuel : Nat} {dynamic : List HeaderField}
    (hfuel : dynamic.length ≤ fuel) :
    (evict tooLarge fuel dynamic (totalSize dynamic)).2 =
        totalSize (evict tooLarge fuel dynamic (totalSize dynamic)).1 ∧
      (tooLarge (evict tooLarge fuel dynamic (totalSize dynamic)).2 = false ∨
        (evict tooLarge fuel dynamic (totalSize dynamic)).1 = []) := by
  induction fuel generalizing dynamic with
  | zero =>
    obtain rfl : dynamic = [] := List.length_eq_zero_iff.mp (Nat.le_zero.mp hfuel)
    exact ⟨rfl, Or.inr rfl⟩
  | succ fuel ih =>
    rw [evict]
    split
    · cases hlast : dynamic.getLast? with
      | none =>
        obtain rfl := List.getLast?_eq_none_iff.mp hlast
        exact ⟨rfl, Or.inr rfl⟩
      | some removed =>
        obtain ⟨before, rfl⟩ := List.getLast?_eq_some_iff.mp hlast
        have hsize : totalSize (before ++ [removed]) - removed.size = totalSize before := by
          rw [totalSize, List.map_append, List.sum_append, List.map_singleton, List.sum_singleton,
            Nat.add_sub_cancel]
          rfl
        have hlen : before.length ≤ fuel := by
          rw [List.length_append, List.length_singleton] at hfuel
          omega
        simp only [List.dropLast_concat, hsize]
        exact ih hlen
    · next hfits => exact ⟨rfl, Or.inl (Bool.eq_false_iff.mpr hfits)⟩

namespace Table

structure Sound (t : Table) : Prop where
  size : t.size = totalSize t.dynamic
  within : t.size ≤ t.maxSize

theorem sound_new (m : Nat) : (new m).Sound := ⟨rfl, Nat.zero_le m⟩

theorem Sound.add {t : Table} (h : t.Sound) (field : HeaderField) : (t.add field).Sound := by
  unfold Table.add
  simp only
  split
  · exact ⟨rfl, Nat.zero_le _⟩
  · next hfits =>
    rw [h.size]
    obtain ⟨hsize, hend⟩ := evict_spec (fun size => size + field.size > t.maxSize)
      (Nat.le_refl t.dynamic.length)
    refine ⟨?_, ?_⟩
    · rw [hsize, Nat.add_comm]
      rfl
    · rcases hend with hend | hend
      · exact Nat.not_lt.mp (of_decide_eq_false hend)
      · rw [hsize, hend]
        show 0 + field.size ≤ t.maxSize
        omega

theorem Sound.setMaxSize {t : Table} (h : t.Sound) (newMax : Nat) :
    (t.setMaxSize newMax).Sound := by
  unfold Table.setMaxSize
  rw [h.size]
  obtain ⟨hsize, hend⟩ := evict_spec (fun size => size > newMax) (Nat.le_refl t.dynamic.length)
  refine ⟨hsize, ?_⟩
  rcases hend with hend | hend
  · exact Nat.not_lt.mp (of_decide_eq_false hend)
  · refine Nat.le_trans (Nat.le_of_eq (hsize.trans (congrArg totalSize hend))) ?_
    exact Nat.zero_le newMax

variable (t : Table)

theorem maxSize_add (field : HeaderField) : (t.add field).maxSize = t.maxSize := by
  unfold Table.add
  simp only
  split <;> rfl

theorem get_succ (n : Nat) : t.get (n + 1) = (staticTable ++ t.dynamic)[n]? := by
  rw [get, if_neg (Nat.succ_ne_zero n)]
  split
  · next h => rw [List.getElem?_append_left (by omega), Nat.add_sub_cancel]
  · next h =>
    rw [List.getElem?_append_right (by omega)]
    congr 1

end Table

variable {name value : String} {l : List HeaderField} {idx : Nat} {nameOnly : Option Nat}

theorem scan_spec :
    (∀ i, scan name value l idx nameOnly = .inl i →
      ∃ k, i = idx + k ∧ l[k]? = some ⟨name, value⟩) ∧
    (∀ i, scan name value l idx nameOnly = .inr (some i) → nameOnly = some i ∨
      ∃ k e, i = idx + k ∧ l[k]? = some e ∧ e.name = name) := by
  induction l generalizing idx nameOnly with
  | nil =>
    constructor
    · intro i h
      cases h
    · intro i h
      exact Or.inl (Sum.inr.inj h)
  | cons e rest ih =>
    rw [scan]
    split
    · next hname =>
      split
      · next hvalue =>
        constructor
        · intro i h
          obtain rfl := Sum.inl.inj h
          subst hname hvalue
          exact ⟨0, rfl, rfl⟩
        · intro i h
          cases h
      · have hrest := @ih (idx + 1) (nameOnly.or (some idx))
        obtain ⟨hfull, hpart⟩ := hrest
        refine ⟨fun i h => ?_, fun i h => ?_⟩
        · obtain ⟨k, rfl, hk⟩ := hfull i h
          exact ⟨k + 1, by omega, hk⟩
        · rcases hpart i h with hor | ⟨k, e', rfl, hk, hn⟩
          · cases nameOnly with
            | some j => exact Or.inl hor
            | none =>
              obtain rfl := Option.some.inj hor
              exact Or.inr ⟨0, e, rfl, rfl, hname⟩
          · exact Or.inr ⟨k + 1, e', by omega, hk, hn⟩
    · have hrest := @ih (idx + 1) nameOnly
      obtain ⟨hfull, hpart⟩ := hrest
      refine ⟨fun i h => ?_, fun i h => ?_⟩
      · obtain ⟨k, rfl, hk⟩ := hfull i h
        exact ⟨k + 1, by omega, hk⟩
      · rcases hpart i h with hor | ⟨k, e', rfl, hk, hn⟩
        · exact Or.inl hor
        · exact Or.inr ⟨k + 1, e', by omega, hk, hn⟩

theorem scan_of_no_name (h : ∀ e ∈ l, e.name ≠ name) :
    scan name value l idx nameOnly = .inr nameOnly := by
  induction l generalizing idx with
  | nil => rfl
  | cons e rest ih =>
    rw [scan, if_neg (h e List.mem_cons_self), ih fun e' he' => h e' (List.mem_cons_of_mem _ he')]

namespace Table

variable {t : Table} {k i : Nat} {h : HeaderField}

theorem get_static (hk : staticTable[k]? = some h) : t.get (1 + k) = some h := by
  rw [Nat.add_comm, get_succ,
    List.getElem?_append_left (List.getElem?_eq_some_iff.mp hk).1, hk]

theorem get_dynamic (hk : t.dynamic[k]? = some h) :
    t.get (staticTable.length + 1 + k) = some h := by
  rw [Nat.add_right_comm, get_succ, List.getElem?_append_right (Nat.le_add_right _ _),
    Nat.add_sub_cancel_left, hk]

theorem find_spec {full : Bool} (h : t.find name value = some (i, full)) :
    ∃ e, t.get i = some e ∧ e.name = name ∧ (full = true → e.value = value) := by
  unfold find at h
  cases hstatic : scan name value staticTable 1 none with
  | inl idx =>
    rw [hstatic] at h
    obtain ⟨rfl, rfl⟩ := Prod.mk.inj (Option.some.inj h)
    obtain ⟨k, rfl, hk⟩ := scan_spec.1 idx hstatic
    exact ⟨_, get_static hk, rfl, fun _ => rfl⟩
  | inr nameOnly =>
    rw [hstatic] at h
    cases hdynamic : scan name value t.dynamic (staticTable.length + 1) nameOnly with
    | inl idx =>
      simp only [hdynamic] at h
      obtain ⟨rfl, rfl⟩ := Prod.mk.inj (Option.some.inj h)
      obtain ⟨k, rfl, hk⟩ := scan_spec.1 idx hdynamic
      exact ⟨_, get_dynamic hk, rfl, fun _ => rfl⟩
    | inr found =>
      simp only [hdynamic] at h
      obtain ⟨idx, rfl, hidx⟩ := Option.map_eq_some_iff.mp h
      obtain ⟨rfl, rfl⟩ := Prod.mk.inj hidx
      rcases scan_spec.2 idx hdynamic with rfl | ⟨k, e, rfl, hk, hn⟩
      · rcases scan_spec.2 idx hstatic with hnone | ⟨k, e, rfl, hk, hn⟩
        · cases hnone
        · exact ⟨e, get_static hk, hn, fun hf => by cases hf⟩
      · exact ⟨e, get_dynamic hk, hn, fun hf => by cases hf⟩

theorem pos_of_get {e : HeaderField} (h : t.get i = some e) : i ≠ 0 := by
  rintro rfl
  cases h

end Table

end ZeroDds.Hpack
