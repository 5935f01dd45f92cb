import ServerNginx.Http.Reading

set_option autoImplicit false

/-!
# The grammar of the request line

`Shape t name url`: the line `t` is a word `name`, blanks, a URL `http://` with a host and the path
`url`, blanks, and `HTTP/1.1`, where case does not matter. The name and the host may be empty.

* **`requestLine_eq_some_iff`**: `requestLine` accepts the lines that have a shape;
* **`parsesRight_iff`**: `parse_request` accepts exactly the request lines of the four methods
  where the line has no shape with another name.
-/

namespace ServerNginx

open CString

/-- No blank and no tab. -/
def Word (t : List UInt8) : Prop := ∀ c ∈ t, c ∉ blank

/-- Blanks and tabs, one at least. -/
def Gap (t : List UInt8) : Prop := t ≠ [] ∧ ∀ c ∈ t, c ∈ blank

/-- `http://`, a host part, and the slash `path` starts with. -/
def IsUrl (u path : List UInt8) : Prop :=
  ∃ scheme host, u = scheme ++ host ++ path ∧ strcaseeq scheme (ascii "http://") = true ∧
    47 ∉ host ∧ ∃ r, path = 47 :: r

/-- **The shape of a request line.** -/
def Shape (t name path : List UInt8) : Prop :=
  ∃ gap u gap' version, t = name ++ gap ++ u ++ gap' ++ version ∧ Word name ∧ Gap gap ∧ Word u ∧
    IsUrl u path ∧ Gap gap' ∧ strcaseeq version (ascii "HTTP/1.1") = true

/-- The method that a name is. -/
def namedMethod (name : List UInt8) : Option Method :=
  [(ascii "GET", Method.get), (ascii "POST", .post), (ascii "HEAD", .head),
    (ascii "OPTIONS", .options)].findSome? fun p => if strcaseeq name p.1 then some p.2 else none

instance (t : List UInt8) : Decidable (Word t) := List.decidableBAll (fun c => c ∉ blank) t

instance (t : List UInt8) : Decidable (Gap t) :=
  have := List.decidableBAll (fun c => c ∈ blank) t
  inferInstanceAs (Decidable (_ ∧ _))

variable {t u v name path r : List UInt8} {old m : Method}

/-! ## Words and blanks -/

theorem length_of_strcaseeq (h : strcaseeq u v = true) : u.length = v.length := by
  have := congrArg List.length (of_decide_eq_true h)
  rwa [List.length_map, List.length_map] at this

theorem strpbrk_word (hu : Word u) (hv : Gap v) : strpbrk (u ++ v ++ r) blank = some u.length := by
  obtain ⟨hne, hall⟩ := hv
  obtain ⟨c, v', rfl⟩ := List.exists_cons_of_ne_nil hne
  exact strpbrk_eq_some_iff.mpr ⟨u, c, v' ++ r, by simp, rfl, hu, hall c List.mem_cons_self⟩

theorem skipBlank_gap (hv : ∀ c ∈ v, c ∈ blank) {c : UInt8} (hc : c ∉ blank) :
    skipBlank (v ++ c :: r) = c :: r := by
  rw [skipBlank, drop_strspn, List.dropWhile_append_of_pos (by simpa using hv),
    List.dropWhile_cons_of_neg (by simpa using hc)]

theorem exists_gap (t : List UInt8) : ∃ v, t = v ++ skipBlank t ∧ (∀ c ∈ v, c ∈ blank) ∧
    ∀ c r, skipBlank t = c :: r → c ∉ blank := by
  refine ⟨t.takeWhile (· ∈ blank), ?_, fun c hc => ?_, fun c r h => ?_⟩
  · rw [skipBlank, drop_strspn, List.takeWhile_append_dropWhile]
  · simpa using List.mem_takeWhile_imp hc
  · have hd := List.head?_dropWhile_not (fun c => decide (c ∈ blank)) t
    rw [skipBlank, drop_strspn] at h
    rw [h] at hd
    simpa using hd

theorem split_word {i : ℕ} (h : strpbrk t blank = some i) :
    ∃ v, t = t.take i ++ v ++ skipBlank (t.drop (i + 1)) ∧ Word (t.take i) ∧ Gap v := by
  obtain ⟨a, c, s, rfl, rfl, ha, hc⟩ := strpbrk_eq_some_iff.mp h
  have hdrop : (a ++ c :: s).drop (a.length + 1) = s := by simp
  obtain ⟨v, hv, hvb, -⟩ := exists_gap s
  rw [hdrop, List.take_left]
  refine ⟨c :: v, ?_, ha, List.cons_ne_nil _ _, List.forall_mem_cons.mpr ⟨hc, hvb⟩⟩
  rw [List.append_assoc, List.cons_append, ← hv]

theorem skipBlank_drop {c : UInt8} (hv : Gap v) (hc : c ∉ blank) :
    skipBlank ((u ++ v ++ c :: r).drop (u.length + 1)) = c :: r := by
  obtain ⟨hne, hall⟩ := hv
  obtain ⟨d, v, rfl⟩ := List.exists_cons_of_ne_nil hne
  have hdrop : (u ++ d :: v ++ c :: r).drop (u.length + 1) = v ++ c :: r := by simp
  rw [hdrop]
  exact skipBlank_gap (fun x hx => hall x (List.mem_cons_of_mem _ hx)) hc

theorem tolower_mem_blank {c : UInt8} : tolower c ∈ blank ↔ c ∈ blank := by
  unfold tolower
  split_ifs with h
  · refine iff_of_false (fun hm => ?_) fun hm => ?_
    · simp only [blank, List.mem_cons, List.not_mem_nil, or_false] at hm
      rcases hm with hm | hm <;> grind
    · simp only [blank, List.mem_cons, List.not_mem_nil, or_false] at hm
      rcases hm with rfl | rfl <;> exact absurd h (by decide)
  · exact Iff.rfl

theorem word_of_strcaseeq (h : strcaseeq u v = true) (hv : Word v) : Word u := by
  intro c hc hb
  have hmem : tolower c ∈ v.map tolower :=
    of_decide_eq_true h ▸ List.mem_map_of_mem hc
  obtain ⟨d, hd, he⟩ := List.mem_map.mp hmem
  exact hv d hd (tolower_mem_blank.mp (he ▸ tolower_mem_blank.mpr hb))

/-! ## Lines with a shape -/

theorem exists_head (hu : Word u) (hl : 0 < u.length) : ∃ c r, u = c :: r ∧ c ∉ blank := by
  obtain ⟨c, r, rfl⟩ := List.exists_cons_of_length_pos hl
  exact ⟨c, r, rfl, hu c List.mem_cons_self⟩

theorem IsUrl.take (h : IsUrl u path) : strncaseeq u (ascii "http://") 7 = true ∧
    ∃ k, strchr (u.drop 7) 47 = some k ∧ (u.drop 7).drop k = path := by
  obtain ⟨scheme, host, rfl, hs, hhost, r, rfl⟩ := h
  have hl : scheme.length = 7 := length_of_strcaseeq hs
  have htake : (scheme ++ host ++ 47 :: r).take 7 = scheme := by
    rw [List.append_assoc, ← hl, List.take_left]
  have hdrop : (scheme ++ host ++ 47 :: r).drop 7 = host ++ 47 :: r := by
    rw [List.append_assoc, ← hl, List.drop_left]
  rw [strncaseeq, htake, hdrop]
  exact ⟨hs, host.length, strchr_eq_some_iff.mpr ⟨host, r, rfl, rfl, hhost⟩, List.drop_left⟩

theorem isUrl_of_take {k : ℕ} (h : strncaseeq u (ascii "http://") 7 = true)
    (hk : strchr (u.drop 7) 47 = some k) : IsUrl u ((u.drop 7).drop k) := by
  obtain ⟨host, r, hd, rfl, hhost⟩ := strchr_eq_some_iff.mp hk
  refine ⟨u.take 7, host, ?_, h, hhost, r, ?_⟩
  · rw [List.append_assoc]
    conv_lhs => rw [← List.take_append_drop 7 u, hd]
    rw [hd, List.drop_left]
  · rw [hd, List.drop_left]

/-- **`requestLine` accepts the lines that have a shape**, with the method of their name. -/
theorem requestLine_eq_some_iff : requestLine old t = some (m, path) ↔
    ∃ name, Shape t name path ∧ m = HttpServer.methodOf name old := by
  constructor
  · intro h
    obtain ⟨i, hi, h⟩ := Option.bind_eq_some_iff.mp h
    obtain ⟨j, hj, h⟩ := Option.bind_eq_some_iff.mp h
    split_ifs at h with hok
    obtain ⟨k, hk, h⟩ := Option.map_eq_some_iff.mp h
    cases h
    obtain ⟨gap, ht, hname, hgap⟩ := split_word hi
    obtain ⟨gap', hrest, hu, hgap'⟩ := split_word hj
    refine ⟨t.take i, ⟨gap, _, gap', _, ?_, hname, hgap, hu, isUrl_of_take hok.2 hk, hgap',
      hok.1⟩, rfl⟩
    conv_lhs => rw [ht, hrest]
    simp only [List.append_assoc]
  · rintro ⟨name, ⟨gap, u, gap', version, rfl, hname, hgap, hu, hurl, hgap', hv⟩, rfl⟩
    obtain ⟨hscheme, k, hk, hpath⟩ := hurl.take
    obtain ⟨c, us, hc, hcb⟩ := exists_head hu (by
      by_contra hz
      rw [List.length_eq_zero_iff.mp (Nat.eq_zero_of_not_pos hz)] at hk
      cases hk)
    have hword : ∀ c ∈ ascii "HTTP/1.1", c ∉ blank := by decide +kernel
    obtain ⟨d, vs, hd, hdb⟩ := exists_head (word_of_strcaseeq hv hword)
      (by rw [length_of_strcaseeq hv]; decide)
    have hassoc : name ++ gap ++ u ++ gap' ++ version =
        name ++ gap ++ (u ++ gap' ++ version) := by simp only [List.append_assoc]
    have hrest : skipBlank ((name ++ gap ++ (u ++ gap' ++ version)).drop (name.length + 1)) =
        u ++ gap' ++ version := by
      rw [hc]
      exact skipBlank_drop hgap hcb
    have hversion : skipBlank ((u ++ gap' ++ version).drop (u.length + 1)) = version := by
      rw [hd]
      exact skipBlank_drop hgap' hdb
    have hname' : (name ++ gap ++ (u ++ gap' ++ version)).take name.length = name := by
      rw [List.append_assoc, List.take_left]
    have hu' : (u ++ gap' ++ version).take u.length = u := by
      rw [List.append_assoc, List.take_left]
    rw [hassoc, requestLine, strpbrk_word hname hgap]
    simp only [Option.bind_some, hrest, strpbrk_word hu hgap', hversion, hu', hv, hscheme,
      and_self, if_true, hk, Option.map_some, hpath, hname']

theorem Shape.unique {name' path' : List UInt8} (h : Shape t name path) (h' : Shape t name' path') :
    name' = name := by
  obtain ⟨gap, u, gap', version, rfl, hname, hgap, -⟩ := h
  obtain ⟨gap₁, u₁, gap₁', version₁, ht, hname₁, hgap₁, -⟩ := h'
  have hi := strpbrk_word (r := u ++ gap' ++ version) hname hgap
  have hi₁ := strpbrk_word (r := u₁ ++ gap₁' ++ version₁) hname₁ hgap₁
  simp only [List.append_assoc] at ht hi hi₁
  rw [ht, hi₁] at hi
  exact (List.append_inj ht (Option.some.inj hi).symm).1.symm

/-! ## `parse_request` -/

theorem methodOf_eq : HttpServer.methodOf name old = (namedMethod name).getD old := by
  unfold HttpServer.methodOf namedMethod
  simp only [List.findSome?_cons, List.findSome?_nil]
  split_ifs <;> rfl

namespace HttpServer

variable {h : HttpServer} {base : ℕ}

/-- **The line is parsed as its grammar says**: it is accepted, with the method it names and
`m_url` at its path, or it is no request line of a method and it is rejected. -/
def ParsesRight (h : HttpServer) (base : ℕ) (t : List UInt8) : Prop :=
  ∃ code g, h.parseRequest base t = .ok (code, g) ∧
    ((code = .noRequest ∧ ∃ name path m, Shape t name path ∧ namedMethod name = some m ∧
        g.mMethod = m ∧ g.deref g.mUrl = .ok path ∧ g.mCheckState = .header) ∨
      code = .badRequest ∧ ∀ name path, Shape t name path → namedMethod name = none)

theorem parsesRight_iff_named (ht : cstr h.mReadBuffer base = some t) :
    h.ParsesRight base t ↔ ∀ name path, Shape t name path → (namedMethod name).isSome := by
  obtain ⟨code, g, hg, -, -, -, hres⟩ := parseRequest_spec ht
  cases hline : requestLine h.mMethod t with
  | none =>
    rw [hline] at hres
    have hnone : ∀ name path, ¬ Shape t name path := fun name path hs => by
      rw [requestLine_eq_some_iff.mpr ⟨name, hs, rfl⟩] at hline
      cases hline
    exact iff_of_true ⟨code, g, hg, Or.inr ⟨hres, fun name path hs => absurd hs (hnone name path)⟩⟩
      fun name path hs => absurd hs (hnone name path)
  | some p =>
    obtain ⟨m, path⟩ := p
    rw [hline] at hres
    obtain ⟨rfl, hm, hst, hurl⟩ := hres
    obtain ⟨name, hs, hmethod⟩ := requestLine_eq_some_iff.mp hline
    rw [methodOf_eq] at hmethod
    constructor
    · rintro ⟨code', g', hg', hright⟩ name' path' hs'
      rw [hg] at hg'
      cases hg'
      rcases hright with ⟨-, name₁, path₁, m₁, hs₁, hn₁, -⟩ | ⟨hcode, -⟩
      · rw [hs₁.unique hs', hn₁]
        rfl
      · cases hcode
    · intro hnamed
      obtain ⟨m', hm'⟩ := Option.isSome_iff_exists.mp (hnamed name path hs)
      rw [hm', Option.getD_some] at hmethod
      exact ⟨_, g, hg, Or.inl ⟨rfl, name, path, m', hs, hm', hm.trans hmethod, hurl.deref, hst⟩⟩

/-- **On a fresh object** `parse_request` accepts exactly the request lines of the four methods if
and only if the line has no other name. -/
theorem parsesRight_iff (u : Uninit) (body : List UInt8) (base : ℕ) (t : List UInt8)
    (ht : cstr ((new u).receive body).mReadBuffer base = some t) :
    ((new u).receive body).ParsesRight base t ↔
      ∀ name path, Shape t name path → (namedMethod name).isSome :=
  parsesRight_iff_named ht

/-- A request line of `POST`. -/
theorem parsesRight_post :
    ((new .zero).receive (ascii "POST \thttp://h/a HTTP/1.1" ++ [0])).ParsesRight 0
      (ascii "POST \thttp://h/a HTTP/1.1") := by
  refine (parsesRight_iff .zero _ 0 _ (by decide +kernel)).mpr fun name path hs => ?_
  have hpost : Shape (ascii "POST \thttp://h/a HTTP/1.1") (ascii "POST") (ascii "/a") :=
    ⟨ascii " \t", ascii "http://h/a", ascii " ", ascii "HTTP/1.1", by decide, by decide, by decide,
      by decide, ⟨ascii "http://", ascii "h", by decide, by decide, by decide, ascii "a",
        by decide⟩, by decide, by decide⟩
  rw [hpost.unique hs]
  decide

/-- **A line of another method** is accepted, as a `GET`. -/
theorem not_parsesRight : ¬ ∀ (u : Uninit) (body : List UInt8) (base : ℕ) (t : List UInt8),
    cstr ((new u).receive body).mReadBuffer base = some t →
      ((new u).receive body).ParsesRight base t := by
  intro hall
  have hright := hall .zero (ascii "PUT http://h/a HTTP/1.1" ++ [0]) 0
    (ascii "PUT http://h/a HTTP/1.1") (by decide +kernel)
  have hput : Shape (ascii "PUT http://h/a HTTP/1.1") (ascii "PUT") (ascii "/a") :=
    ⟨ascii " ", ascii "http://h/a", ascii " ", ascii "HTTP/1.1", by decide, by decide, by decide,
      by decide, ⟨ascii "http://", ascii "h", by decide, by decide, by decide, ascii "a",
        by decide⟩, by decide, by decide⟩
  exact absurd ((parsesRight_iff_named (by decide +kernel)).mp hright _ _ hput) (by decide)

end HttpServer

end ServerNginx
