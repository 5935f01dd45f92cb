import ServerNginx.Lib.CString
import ServerNginx.Lib.Getline
import ServerNginx.Lib.Loop
import Mathlib.Algebra.Group.Int.Defs
import Mathlib.Algebra.Group.Nat.Defs

set_option autoImplicit false

/-!
# The configuration file

`CConfig::Load` and `CConfig::GetString`.

* `confItem_isSome`: the search positions are within the line, and no `substr` throws;
* `load_lines`: a file whose lines fit in the buffer gives the items of its lines;
* **`load_returns_iff`**: `Load` returns exactly where every line has at most 499 bytes;
  `not_load_returns` is a file it does not return from;
* **`getString_load`**: `GetString` inverts the text of a configuration.
-/

namespace ServerNginx

open CString

/-- `CConfItem`. -/
structure CConfItem where
  itemName : List UInt8
  iterContent : List UInt8
deriving DecidableEq, Repr

/-- The part of `CConfig` that is not the singleton's. -/
structure CConfig where
  mConfigItemList : List CConfItem
deriving DecidableEq

/-- An `int` where a `size_t` is asked for: -1 is `npos`. -/
def sizeT (i : ℤ) : ℕ := (i % 2 ^ 64).toNat

/-- `find` of a `std::string`, its result kept in an `int`. -/
def find (s : List UInt8) (c : UInt8) : ℤ :=
  match strchr s c with
  | some i => i
  | none => -1

/-- `substr` of a `std::string`, `none` where it throws. -/
def substr (s : List UInt8) (pos n : ℤ) : Option (List UInt8) :=
  if sizeT pos ≤ s.length then some ((s.drop (sizeT pos)).take (sizeT n)) else none

/-- The item of a line. -/
def confItem (confdata : List UInt8) : Option CConfItem := do
  let posa := find confdata 59 -- ';'
  let posb := find confdata 61 -- '='
  let posc := find confdata 32 -- ' '
  let itemName ← (if posc = -1 ∨ posb < posc then substr confdata 0 posb
    else substr confdata 0 posc)
  let confdata ← substr confdata (posb + 1) (posa - posb - 1)
  some ⟨itemName, confdata.dropWhile (· = 32)⟩

/-- Lines that start with such a byte are not read; an empty line starts with its NUL. -/
def Ignored (b : UInt8) : Prop := b ∈ ascii " #;\t\n[" ++ [0]

instance (b : UInt8) : Decidable (Ignored b) := inferInstanceAs (Decidable (_ ∈ _))

/-- What the loop of `Load` carries on. -/
structure LoadState where
  ifs : Istream UInt8
  linebuf : List UInt8
  cc : CConfig

/-- An iteration of the loop of `Load`, which stops with `none` where it throws. -/
def loadStep (s : LoadState) : Loop.Next LoadState (Option CConfig) :=
  if s.ifs.eofbit then .stop (some s.cc)
  else
    let (ifs, line) := s.ifs.getline 10 500
    let linebuf := line ++ 0 :: s.linebuf.drop (line.length + 1)
    if Ignored (linebuf.headD 0) then .again { s with ifs, linebuf }
    else
      match (cstr linebuf 0).bind fun confdata => (confItem confdata).map (confdata, ·) with
      | none => .stop none
      | some (confdata, item) => .again
        { ifs
          linebuf := List.replicate confdata.length 0 ++ linebuf.drop confdata.length
          cc := ⟨s.cc.mConfigItemList ++ [item]⟩ }

/-- The loop of `Load` before its first iteration. -/
def loadStart (cc : CConfig) (file : List UInt8) : LoadState :=
  ⟨.opened file, List.replicate 501 0, cc⟩

/-- `Load`, with at most `fuel` iterations; the file is `none` where it does not open. -/
def CConfig.load (cc : CConfig) (fuel : ℕ) : Option (List UInt8) → Option (Bool × CConfig)
  | none => some (false, cc)
  | some file =>
    match Loop.run loadStep fuel (loadStart cc file) with
    | some (some cc') => some (true, cc')
    | _ => none

/-- `Load` returns `r.1`, and leaves the object at `r.2`. -/
def CConfig.Loads (cc : CConfig) (file : Option (List UInt8)) (r : Bool × CConfig) : Prop :=
  ∃ fuel, cc.load fuel file = some r

/-- `GetString`. -/
def CConfig.getString (cc : CConfig) (itemname : List UInt8) : Option (List UInt8) :=
  (cc.mConfigItemList.find? fun p => p.itemName = itemname).map (·.iterContent)

/-- What a line adds. -/
def lineItem (line : List UInt8) : Option CConfItem :=
  if Ignored (line.headD 0) then none else confItem (line.takeWhile (· ≠ 0))

variable {cc cc' : CConfig} {file line s : List UInt8}

/-! ## A line -/

theorem sizeT_le {i : ℤ} {n : ℕ} (h0 : 0 ≤ i) (h : i ≤ n) : sizeT i ≤ n := by
  unfold sizeT
  omega

theorem sizeT_natCast {n : ℕ} (h : n < 2 ^ 64) : sizeT n = n := by
  unfold sizeT
  rw [Int.emod_eq_of_lt (by omega) (by exact_mod_cast h), Int.toNat_natCast]

theorem find_of_mem {a r : List UInt8} {c : UInt8} (h : c ∉ a) :
    find (a ++ c :: r) c = a.length := by
  have hf : strchr (a ++ c :: r) c = some a.length :=
    findIdx?_eq_some_iff_append.mpr ⟨a, c, r, rfl, rfl, fun x hx => by
      rw [decide_eq_false_iff_not]
      rintro rfl
      exact h hx, decide_eq_true rfl⟩
  rw [find, hf]

theorem find_of_not_mem {c : UInt8} (h : c ∉ s) : find s c = -1 := by
  rw [find, strchr_eq_none_iff.mpr h]

theorem find_bounds (s : List UInt8) (c : UInt8) : -1 ≤ find s c ∧ find s c < s.length := by
  cases h : strchr s c with
  | none =>
    simp only [find, h]
    omega
  | some i =>
    have := strchr_lt h
    simp only [find, h]
    omega

/-- **No `substr` throws.** -/
theorem confItem_isSome (s : List UInt8) : ∃ item, confItem s = some item := by
  have hb := find_bounds s 61
  have h0 : ∀ n, substr s 0 n = some (s.take (sizeT n)) := fun n => by
    simp [substr, sizeT]
  have h1 : ∀ n, substr s (find s 61 + 1) n =
      some ((s.drop (sizeT (find s 61 + 1))).take (sizeT n)) :=
    fun n => if_pos (sizeT_le (by omega) (by omega))
  simp only [confItem, h0, h1]
  split_ifs <;> exact ⟨_, rfl⟩

/-! ## The loop -/

theorem loadStep_eq (b : List UInt8) (cc : CConfig) {ifs ifs' : Istream UInt8}
    {line : List UInt8} (h : ifs.eofbit = false) (hg : ifs.getline 10 500 = (ifs', line)) :
    ∃ b', loadStep ⟨ifs, b, cc⟩ =
      .again ⟨ifs', b', ⟨cc.mConfigItemList ++ (lineItem line).toList⟩⟩ := by
  have hhead : (line ++ 0 :: b.drop (line.length + 1)).headD 0 = line.headD 0 := by
    cases line <;> rfl
  have hcstr : cstr (line ++ 0 :: b.drop (line.length + 1)) 0 =
      some (line.takeWhile (· ≠ 0)) := cstr_append [] line _
  simp only [loadStep, h, Bool.false_eq_true, if_false, hg, hhead, hcstr, lineItem,
    Option.bind_some]
  split_ifs
  · exact ⟨_, by rw [Option.toList_none, List.append_nil]⟩
  · obtain ⟨item, hi⟩ := confItem_isSome (line.takeWhile (· ≠ 0))
    simp only [hi, Option.map_some]
    exact ⟨_, rfl⟩

/-- **A file whose lines fit** gives the items of its lines, in order. -/
theorem load_lines {b : List UInt8} (h : ∀ l ∈ file.splitOn 10, l.length ≤ 499) :
    Loop.Ends loadStep ⟨.opened file, b, cc⟩
      (some ⟨cc.mConfigItemList ++ (file.splitOn 10).filterMap lineItem⟩) := by
  induction hn : file.length using Nat.strongRecOn generalizing file b cc with
  | ind n ih =>
    rcases Istream.lines_cases 10 file with ⟨hd, hs⟩ | ⟨a, r, rfl, ha, hs⟩
    · rw [hs] at h ⊢
      have hlen : file.length < 500 := Nat.lt_succ_of_le (h file (List.mem_singleton_self _))
      obtain ⟨b', hb'⟩ := loadStep_eq b cc rfl (Istream.getline_last hd hlen)
      have hstop : loadStep ⟨⟨[], true, file = []⟩, b', ⟨cc.mConfigItemList ++
          (lineItem file).toList⟩⟩ = .stop (some ⟨cc.mConfigItemList ++ (lineItem file).toList⟩) :=
        rfl
      rw [Loop.ends_of_again hb', Loop.ends_of_stop hstop]
      cases hl : lineItem file <;> simp [hl]
    · rw [hs] at h ⊢
      have hlen : a.length < 500 := Nat.lt_succ_of_le (h a List.mem_cons_self)
      obtain ⟨b', hb'⟩ := loadStep_eq b cc rfl
        (Istream.getline_line (r := r) ha hlen)
      rw [Loop.ends_of_again hb']
      have := @ih r.length (by rw [← hn]; simp; omega) ⟨cc.mConfigItemList ++
        (lineItem a).toList⟩ r b' (fun l hl => h l (List.mem_cons_of_mem _ hl)) rfl
      cases hl : lineItem a <;> simpa [hl] using this

/-- The stream has failed, or will. -/
def Stuck (s : LoadState) : Prop :=
  s.ifs.eofbit = false ∧ (s.ifs.failbit = true ∨ ∃ l ∈ s.ifs.rest.splitOn 10, 500 ≤ l.length)

theorem loadStep_stuck {s : LoadState} (h : Stuck s) : ∃ t, loadStep s = .again t ∧ Stuck t := by
  obtain ⟨⟨rest, eof, fail⟩, b, cc⟩ := s
  obtain ⟨he, h⟩ := h
  cases he
  cases fail with
  | true =>
    obtain ⟨b', hb'⟩ := loadStep_eq b cc rfl
      (Istream.getline_failed (n := 500) (d := 10) ⟨rest, false, true⟩ rfl)
    exact ⟨_, hb', rfl, Or.inl rfl⟩
  | false =>
    obtain ⟨l, hl, hlen⟩ : ∃ l ∈ rest.splitOn 10, 500 ≤ l.length := h.resolve_left (nomatch ·)
    have long : ∀ a r, rest = a ++ r → (10 : UInt8) ∉ a → 500 ≤ a.length →
        ∃ t, loadStep ⟨⟨rest, false, false⟩, b, cc⟩ = .again t ∧ Stuck t := by
      rintro a r rfl ha halen
      obtain ⟨b', hb'⟩ := loadStep_eq b cc rfl
        (Istream.getline_long (r := r) ha halen (by decide))
      exact ⟨_, hb', rfl, Or.inl rfl⟩
    rcases Istream.lines_cases 10 rest with ⟨hd, hs⟩ | ⟨a, r, hr, ha, hs⟩
    · rw [hs, List.mem_singleton] at hl
      exact long rest [] (List.append_nil _).symm hd (hl ▸ hlen)
    · rcases Nat.lt_or_ge a.length 500 with hlt | hge
      · rw [hs, List.mem_cons] at hl
        have hmem : l ∈ r.splitOn 10 := hl.resolve_left fun h => by rw [h] at hlen; omega
        subst hr
        obtain ⟨b', hb'⟩ := loadStep_eq b cc rfl
          (Istream.getline_line (r := r) ha hlt)
        exact ⟨_, hb', rfl, Or.inr ⟨l, hmem, hlen⟩⟩
      · exact long a (10 :: r) hr ha hge

theorem loads_some_iff {r : Bool × CConfig} : cc.Loads (some file) r ↔
    r.1 = true ∧ Loop.Ends loadStep (loadStart cc file) (some r.2) := by
  obtain ⟨ok, cc'⟩ := r
  constructor
  · rintro ⟨fuel, h⟩
    unfold CConfig.load at h
    cases hr : Loop.run loadStep fuel (loadStart cc file) with
    | none => simp [hr] at h
    | some res =>
      cases res with
      | none => simp [hr] at h
      | some cc₁ =>
        simp only [hr, Option.some.injEq, Prod.mk.injEq] at h
        obtain ⟨rfl, rfl⟩ := h
        exact ⟨rfl, fuel, hr⟩
  · rintro ⟨rfl, fuel, h⟩
    exact ⟨fuel, by simp only [CConfig.load, h]⟩

theorem loads_lines (h : ∀ l ∈ file.splitOn 10, l.length ≤ 499) : cc.Loads (some file)
    (true, ⟨cc.mConfigItemList ++ (file.splitOn 10).filterMap lineItem⟩) :=
  loads_some_iff.mpr ⟨rfl, load_lines h⟩

/-- From a file with a longer line there is no return. -/
theorem not_loads {l : List UInt8} {r : Bool × CConfig} (hl : l ∈ file.splitOn 10)
    (hlen : 500 ≤ l.length) : ¬ cc.Loads (some file) r :=
  fun h => Loop.not_ends (I := Stuck) (fun _ hs => loadStep_stuck hs)
    ⟨rfl, Or.inr ⟨l, hl, hlen⟩⟩ (loads_some_iff.mp h).2

/-- **`Load` returns** exactly where every line of the file has at most 499 bytes. -/
theorem load_returns_iff (cc : CConfig) (file : List UInt8) :
    (∃ r, cc.Loads (some file) r) ↔ ∀ l ∈ file.splitOn 10, l.length ≤ 499 := by
  constructor
  · rintro ⟨r, h⟩ l hl
    by_contra hlen
    exact not_loads hl (by omega) h
  · intro h
    exact ⟨_, loads_lines h⟩

/-- **A file `Load` does not return from**: a comment of 500 bytes. -/
theorem not_load_returns :
    ¬ ∀ (cc : CConfig) (file : List UInt8), ∃ r, cc.Loads (some file) r := by
  intro h
  obtain ⟨r, hr⟩ := h ⟨[]⟩ (List.replicate 500 35)
  refine not_loads (l := List.replicate 500 35) ?_ (by rw [List.length_replicate]) hr
  rw [List.splitOn_eq_singleton fun hm => absurd (List.eq_of_mem_replicate hm) (by decide)]
  exact List.mem_singleton_self _

/-! ## The text of a configuration -/

/-- A line of a configuration file: one that is not read, or a name, an equals sign and a value,
with spaces around the sign and anything behind the semicolon. -/
inductive ConfLine
  | ignored (text : List UInt8)
  | item (name : List UInt8) (before after : ℕ) (value rest : List UInt8)

namespace ConfLine

def text : ConfLine → List UInt8
  | .ignored text => text
  | .item name before after value rest => name ++ List.replicate before 32 ++
      61 :: (List.replicate after 32 ++ value ++ 59 :: rest)

/-- The bytes each part may hold. -/
def Shape : ConfLine → Prop
  | .ignored text => ∀ b ∈ text.head?, b ∈ ascii " #;\t["
  | .item name _ _ value _ => name ≠ [] ∧ (∀ b ∈ name.head?, b ∉ ascii "#[\t") ∧
      (∀ b ∈ name, b ∉ ascii " =;") ∧ 59 ∉ value ∧ value.head? ≠ some 32

instance : ∀ l : ConfLine, Decidable l.Shape
  | .ignored _ => inferInstanceAs (Decidable (∀ b ∈ _, _))
  | .item .. => inferInstanceAs (Decidable (_ ∧ _))

structure WellFormed (l : ConfLine) : Prop where
  len : l.text.length ≤ 499
  bytes : ∀ b ∈ l.text, b ≠ 0 ∧ b ≠ 10
  shape : l.Shape

/-- The value the line has for the name `k`. -/
def valueOf (k : List UInt8) : ConfLine → Option (List UInt8)
  | .ignored _ => none
  | .item name _ _ value _ => if name = k then some value else none

/-- The item `Load` makes of the line. -/
def confItem? : ConfLine → Option CConfItem
  | .ignored _ => none
  | .item name _ _ value _ => some ⟨name, value⟩

end ConfLine

/-- The text of a file; `newline` says whether its last line ends in one. -/
def confText (ls : List ConfLine) (newline : Bool) : List UInt8 :=
  [10].intercalate (ls.map ConfLine.text) ++ if newline then [10] else []

theorem substr_natCast {pos n : ℕ} (hs : s.length < 2 ^ 64) (hp : pos ≤ s.length)
    (hn : n ≤ s.length) : substr s pos n = some ((s.drop pos).take n) := by
  rw [substr, sizeT_natCast (by omega), sizeT_natCast (by omega), if_pos hp]

theorem find_append {a : List UInt8} {c : UInt8} (h : c ∉ a) (r : List UInt8) :
    find (a ++ r) c = -1 ∨ (a.length : ℤ) ≤ find (a ++ r) c := by
  by_cases hr : c ∈ r
  · obtain ⟨r₁, r₂, rfl, h₁⟩ := List.eq_append_cons_of_mem hr
    right
    rw [← List.append_assoc, find_of_mem (by simp [h, h₁]), List.length_append]
    omega
  · exact Or.inl (find_of_not_mem (by simp [h, hr]))

section

variable {name value rest : List UInt8} {before after : ℕ}

theorem text_item : (ConfLine.item name before after value rest).text =
    name ++ (List.replicate before 32 ++
      61 :: (List.replicate after 32 ++ value ++ 59 :: rest)) := by
  rw [ConfLine.text, List.append_assoc]

variable (name value rest before after) in
theorem length_text_item : (ConfLine.item name before after value rest).text.length =
    name.length + before + 1 + (after + value.length) + (1 + rest.length) := by
  simp only [text_item, List.length_append, List.length_replicate, List.length_cons]
  omega

theorem find_equals (h61 : 61 ∉ name) :
    find (ConfLine.item name before after value rest).text 61 = (name.length + before : ℕ) := by
  have h : (61 : UInt8) ∉ name ++ List.replicate before 32 := by
    simp [h61, List.mem_replicate]
  rw [ConfLine.text, find_of_mem h, List.length_append, List.length_replicate]

theorem find_semicolon (h59 : 59 ∉ name) (hv : 59 ∉ value) :
    find (ConfLine.item name before after value rest).text 59 =
      (name.length + before + 1 + (after + value.length) : ℕ) := by
  have h : (59 : UInt8) ∉ name ++ (List.replicate before 32 ++
      61 :: (List.replicate after 32 ++ value)) := by
    simp [h59, hv, List.mem_replicate]
  have ht : (ConfLine.item name before after value rest).text =
      (name ++ (List.replicate before 32 ++ 61 :: (List.replicate after 32 ++ value))) ++
        59 :: rest := by
    simp only [text_item, List.append_assoc, List.cons_append]
  rw [ht, find_of_mem h]
  simp only [List.length_append, List.length_replicate, List.length_cons]
  omega

theorem cut_name (hlen : (ConfLine.item name before after value rest).text.length ≤ 499)
    (h61 : 61 ∉ name) (h32 : 32 ∉ name) :
    let t := (ConfLine.item name before after value rest).text
    (if find t 32 = -1 ∨ find t 61 < find t 32 then substr t 0 (find t 61)
      else substr t 0 (find t 32)) = some name := by
  intro t
  have hl : t.length = _ := length_text_item name value rest before after
  have hlen : t.length ≤ 499 := hlen
  have hsub : substr t 0 (name.length : ℕ) = some name := by
    rw [show (0 : ℤ) = (0 : ℕ) from rfl, substr_natCast (by omega) (by omega) (by omega)]
    simp only [t, text_item, List.drop_zero, List.take_left]
  cases before with
  | zero =>
    have ht : t = (name ++ [61]) ++ (List.replicate after 32 ++ value ++ 59 :: rest) := by
      simp only [t, text_item, List.replicate_zero, List.nil_append, List.append_assoc,
        List.cons_append]
    have hc : find t 32 = -1 ∨ find t 61 < find t 32 := by
      have h := find_append (c := 32) (a := name ++ [61]) (by simp [h32])
        (List.replicate after 32 ++ value ++ 59 :: rest)
      rw [← ht, List.length_append, List.length_singleton] at h
      rw [show find t 61 = _ from find_equals h61]
      omega
    rw [if_pos hc, show find t 61 = _ from find_equals h61]
    exact hsub
  | succ n =>
    have hc : find t 32 = name.length := by
      rw [show t = _ from text_item, List.replicate_succ, List.cons_append, find_of_mem h32]
    have hlt : ¬ (find t 32 = -1 ∨ find t 61 < find t 32) := by
      rw [hc, show find t 61 = _ from find_equals h61]
      omega
    rw [if_neg hlt, hc]
    exact hsub

theorem cut_content (hlen : (ConfLine.item name before after value rest).text.length ≤ 499)
    (h61 : 61 ∉ name) (h59 : 59 ∉ name) (hv : 59 ∉ value) :
    let t := (ConfLine.item name before after value rest).text
    substr t (find t 61 + 1) (find t 59 - find t 61 - 1) =
      some (List.replicate after 32 ++ value) := by
  intro t
  have hl : t.length = _ := length_text_item name value rest before after
  have hlen : t.length ≤ 499 := hlen
  have hpos : find t 61 + 1 = (name.length + before + 1 : ℕ) := by
    rw [show find t 61 = _ from find_equals h61]
    rfl
  have hn : find t 59 - find t 61 - 1 = (after + value.length : ℕ) := by
    rw [show find t 61 = _ from find_equals h61, show find t 59 = _ from find_semicolon h59 hv]
    omega
  have ht : t = (name ++ List.replicate before 32 ++ [61]) ++
      ((List.replicate after 32 ++ value) ++ 59 :: rest) := by
    simp only [t, text_item, List.append_assoc, List.cons_append, List.nil_append]
  rw [hpos, hn, substr_natCast (by omega) (by omega) (by omega), ht,
    List.drop_left' (by simp; omega), List.take_left' (by simp)]

/-- **An item is cut out of its line.** -/
theorem confItem_item (hlen : (ConfLine.item name before after value rest).text.length ≤ 499)
    (h : (ConfLine.item name before after value rest).Shape) :
    confItem (ConfLine.item name before after value rest).text = some ⟨name, value⟩ := by
  obtain ⟨-, -, hname, hvalue, hhead⟩ := h
  have h32 : (32 : UInt8) ∉ name := fun hm => hname _ hm (by decide)
  have h61 : (61 : UInt8) ∉ name := fun hm => hname _ hm (by decide)
  have h59 : (59 : UInt8) ∉ name := fun hm => hname _ hm (by decide)
  have hdrop : (List.replicate after (32 : UInt8) ++ value).dropWhile (· = 32) = value := by
    rw [List.dropWhile_append_of_pos (by simp [List.mem_replicate])]
    cases value with
    | nil => rfl
    | cons b v => exact List.dropWhile_cons_of_neg (by simpa using hhead)
  simp only [confItem, cut_name hlen h61 h32, cut_content hlen h61 h59 hvalue, hdrop,
    Option.bind_eq_bind, Option.bind_some]

end

theorem lineItem_text {l : ConfLine} (h : l.WellFormed) : lineItem l.text = l.confItem? := by
  have htake : l.text.takeWhile (· ≠ 0) = l.text :=
    List.takeWhile_eq_self_iff.mpr fun b hb => decide_eq_true (h.bytes b hb).1
  have hshape := h.shape
  cases l with
  | ignored t =>
    refine if_pos ?_
    cases t with
    | nil => exact List.mem_append_right _ (List.mem_singleton_self _)
    | cons b t =>
      have hsub : ascii " #;\t[" ⊆ ascii " #;\t\n[" ++ [0] := by decide
      exact hsub (hshape b rfl)
  | item name before after value rest =>
    obtain ⟨hne, hhead, hname, -⟩ := hshape
    obtain ⟨b, n, rfl⟩ := List.exists_cons_of_ne_nil hne
    have hb : ¬ Ignored b := by
      have hsub : ascii " #;\t\n[" ++ [0] ⊆ ascii "#[\t" ++ (ascii " =;" ++ [0, 10]) := by decide
      have hbytes := h.bytes b List.mem_cons_self
      intro hi
      rcases List.mem_append.mp (hsub hi) with h1 | h2
      · exact hhead b rfl h1
      · rcases List.mem_append.mp h2 with h2 | h3
        · exact hname b List.mem_cons_self h2
        · simp [hbytes] at h3
    rw [lineItem, htake]
    exact (if_neg hb).trans (confItem_item h.len h.shape)

theorem splitOn_confText {ls : List ConfLine} (h : ∀ l ∈ ls, l.WellFormed) (newline : Bool) :
    (∀ l ∈ (confText ls newline).splitOn 10, l.length ≤ 499) ∧
      ((confText ls newline).splitOn 10).filterMap lineItem = ls.filterMap ConfLine.confItem? := by
  have hitem : (ls.map ConfLine.text).filterMap lineItem = ls.filterMap ConfLine.confItem? := by
    rw [List.filterMap_map]
    exact List.filterMap_congr fun l hl => lineItem_text (h l hl)
  have hnil : lineItem [] = none := rfl
  have hlines : ∀ t ∈ ls.map ConfLine.text, t.length ≤ 499 ∧ 10 ∉ t := by
    intro t ht
    obtain ⟨l, hl, rfl⟩ := List.mem_map.mp ht
    exact ⟨(h l hl).len, fun hm => ((h l hl).bytes 10 hm).2 rfl⟩
  -- without the last newline the lines are those of `ls`, or one empty line
  have hbare : (∀ l ∈ ([10].intercalate (ls.map ConfLine.text)).splitOn 10, l.length ≤ 499) ∧
      (([10].intercalate (ls.map ConfLine.text)).splitOn 10).filterMap lineItem =
        ls.filterMap ConfLine.confItem? := by
    cases ls with
    | nil => exact ⟨by simp, rfl⟩
    | cons l ls =>
      rw [List.splitOn_intercalate 10 (fun t ht => (hlines t ht).2) (by simp)]
      exact ⟨fun t ht => (hlines t ht).1, hitem⟩
  cases newline with
  | false =>
    rw [confText, if_neg (by decide), List.append_nil]
    exact hbare
  | true =>
    rw [confText, if_pos rfl, List.splitOn_append_cons_self, List.filterMap_append]
    refine ⟨fun l hl => ?_, ?_⟩
    · rcases List.mem_append.mp hl with hl | hl
      · exact hbare.1 l hl
      · simp at hl
        simp [hl]
    · rw [hbare.2]
      simp [hnil]

theorem getString_confItems (ls : List ConfLine) (k : List UInt8) :
    CConfig.getString ⟨ls.filterMap ConfLine.confItem?⟩ k = ls.findSome? (ConfLine.valueOf k) := by
  induction ls with
  | nil => rfl
  | cons l ls ih =>
    cases l with
    | ignored t => exact ih
    | item name before after value rest =>
      have hitem : ConfLine.confItem? (.item name before after value rest) =
          some ⟨name, value⟩ := rfl
      rw [List.filterMap_cons_some hitem, List.findSome?_cons]
      by_cases hk : name = k
      · simp [CConfig.getString, ConfLine.valueOf, hk]
      · simpa [CConfig.getString, ConfLine.valueOf, hk] using ih

/-- **The round trip.** `Load` of the text of a configuration into an empty object returns, whether
or not the last line ends in a newline, and `GetString` gives each name the value of its first
line. -/
theorem getString_load (ls : List ConfLine) (h : ∀ l ∈ ls, l.WellFormed) (newline : Bool) :
    (∃ r, CConfig.Loads ⟨[]⟩ (some (confText ls newline)) r) ∧
      ∀ ok cc, CConfig.Loads ⟨[]⟩ (some (confText ls newline)) (ok, cc) →
        ok = true ∧ ∀ k, cc.getString k = ls.findSome? (ConfLine.valueOf k) := by
  obtain ⟨hlen, hitems⟩ := splitOn_confText h newline
  refine ⟨⟨_, loads_lines hlen⟩, fun ok cc hcc => ?_⟩
  obtain ⟨hok, hends⟩ := loads_some_iff.mp hcc
  cases hends.unique (load_lines hlen)
  refine ⟨hok, fun k => ?_⟩
  show CConfig.getString ⟨[] ++ _⟩ k = _
  rw [List.nil_append, hitems]
  exact getString_confItems ls k

/-- A comment, and a name that has two lines. -/
theorem getString_load_twice : ∃ cc,
    CConfig.Loads ⟨[]⟩ (some (ascii "#p\nP = 80;\nP=81; x")) (true, cc) ∧
      cc.getString (ascii "P") = some (ascii "80") ∧ cc.getString (ascii "p") = none := by
  have h := getString_load [.ignored (ascii "#p"), .item (ascii "P") 1 1 (ascii "80") [],
    .item (ascii "P") 0 0 (ascii "81") (ascii " x")]
    (List.forall_mem_cons.mpr ⟨⟨by decide, by decide +kernel, by decide +kernel⟩,
      List.forall_mem_cons.mpr ⟨⟨by decide, by decide +kernel, by decide +kernel⟩,
        List.forall_mem_singleton.mpr ⟨by decide, by decide +kernel, by decide +kernel⟩⟩⟩) false
  obtain ⟨⟨⟨ok, cc⟩, hcc⟩, hall⟩ := h
  obtain ⟨rfl, hget⟩ := hall ok cc hcc
  exact ⟨cc, hcc, hget _, hget _⟩

end ServerNginx
