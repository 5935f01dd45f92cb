import ServerNginx.Http.Reading

set_option autoImplicit false

/-!
# Bodies that are read without a fault

`SafeBody body`: each header line that is parsed has a colon and a text its handler can convert,
the content length does not carry a line past `int`, and a URL that names a file fits the file
name.

* `doRequest_eq`, `doRequest_long`: `do_request` for a URL that fits, and for one that does not;
* **`processRead_returns_iff`**: `process_read` of a fresh object returns a code exactly on the
  bodies that are `SafeBody`.
-/

namespace ServerNginx

open CString CNumber

/-! ## The condition -/

/-- `m_filename` holds `./Resource`, the URL and a NUL; the request for options needs no file. -/
def UrlFits (m : Method) (url : List UInt8) : Prop := m = .options ∨ url.length < 190

/-- The content, as in `readContent`: no overflow, and `fits` where the request is complete. -/
def SafeContent (len : ℕ) (fits : Prop) (n : ℤ) : ℕ → List (List UInt8) → Prop
  | _, [] => True
  | pos, l :: ls =>
    let next := pos + l.length + 2
    n + next < 2 ^ 31 ∧ (n + next ≤ len → fits) ∧ (len < n + next → SafeContent len fits n next ls)

/-- The header lines: each is `LineOk`, up to the one that ends them or is rejected. -/
def SafeHeaders (len : ℕ) (fits : Prop) : ℤ → ℕ → List (List UInt8) → Prop
  | _, _, [] => True
  | n, pos, l :: ls =>
    let next := pos + l.length + 2
    (lineText l = [] → (0 < n → SafeContent len fits n next ls) ∧ (n ≤ 0 → fits)) ∧
    (lineText l ≠ [] → LineOk (lineText l) ∧ (¬ LineRejected (lineText l) →
      SafeHeaders len fits (lengthAfter (lineText l) n) next ls))

/-- A body a fresh object reads without a fault. -/
def SafeBody (body : List UInt8) : Prop :=
  ∀ l ls m url, lines body = l :: ls → requestLine .get (lineText l) = some (m, url) →
    SafeHeaders body.length (UrlFits m url) 0 (l.length + 2) ls

/-- The reading is no fault and asks for no file whose name does not fit. -/
def Reading.Safe : Reading → Prop
  | .fault => False
  | .bad => True
  | .request m url => UrlFits m url

instance (m : Method) (url : List UInt8) : Decidable (UrlFits m url) := by
  unfold UrlFits
  infer_instance

instance (r : Reading) : Decidable r.Safe :=
  match r with
  | .fault => isFalse id
  | .bad => isTrue trivial
  | .request m url => inferInstanceAs (Decidable (UrlFits m url))

section Condition

variable {len : ℕ} {m : Method} {url : List UInt8}

theorem safeContent_iff {n : ℤ} (ls : List (List UInt8)) : ∀ pos : ℕ,
    SafeContent len (UrlFits m url) n pos ls ↔
      (readContent len (.request m url) n pos ls).Safe := by
  induction ls with
  | nil => exact fun _ => Iff.rfl
  | cons l ls ih =>
    intro pos
    dsimp only [SafeContent, readContent]
    split_ifs with hwrap hfit
    · exact iff_of_false (fun h => absurd hwrap (not_le.mpr h.1)) id
    · exact ⟨fun h => h.2.1 hfit, fun h =>
        ⟨not_le.mp hwrap, fun _ => h, fun hlt => absurd hfit (not_le.mpr hlt)⟩⟩
    · exact ⟨fun h => (ih _).mp (h.2.2 (not_le.mp hfit)), fun h =>
        ⟨not_le.mp hwrap, fun hle => absurd hle hfit, fun _ => (ih _).mpr h⟩⟩

theorem safeHeaders_iff (ls : List (List UInt8)) : ∀ (n : ℤ) (pos : ℕ),
    SafeHeaders len (UrlFits m url) n pos ls ↔
      (readHeaders len (.request m url) n pos ls).Safe := by
  induction ls with
  | nil => exact fun _ _ => Iff.rfl
  | cons l ls ih =>
    intro n pos
    dsimp only [SafeHeaders, readHeaders]
    split_ifs with hnil hpos hok hrej
    · simp [hnil, hpos, not_le.mpr hpos, safeContent_iff]
    · simp [hnil, hpos, not_lt.mp hpos, Reading.Safe]
    · simp [hnil, hok, hrej, Reading.Safe]
    · simp only [hnil, hok, hrej, ← ih, false_imp_iff, not_false_eq_true, true_imp_iff, ne_eq,
        true_and]
    · simp [hnil, hok, Reading.Safe]

theorem safeBody_iff {body : List UInt8} : SafeBody body ↔ (reading body).Safe := by
  unfold SafeBody reading
  cases hl : lines body with
  | nil => simp [Reading.Safe]
  | cons l ls =>
    have hone : (∀ l' ls' m url, l :: ls = l' :: ls' →
        requestLine .get (lineText l') = some (m, url) →
          SafeHeaders body.length (UrlFits m url) 0 (l'.length + 2) ls') ↔
        ∀ m url, requestLine .get (lineText l) = some (m, url) →
          SafeHeaders body.length (UrlFits m url) 0 (l.length + 2) ls := by
      refine ⟨fun h m url => h l ls m url rfl, fun h l' ls' m url hl' => ?_⟩
      cases hl'
      exact h m url
    rw [hone]
    dsimp only
    cases requestLine .get (lineText l) with
    | none => simp [Reading.Safe]
    | some p =>
      obtain ⟨m, url⟩ := p
      rw [← safeHeaders_iff]
      constructor
      · exact fun h => h m url rfl
      · intro h m' url' hp
        cases hp
        exact h

end Condition

instance (body : List UInt8) : Decidable (SafeBody body) := decidable_of_iff _ safeBody_iff.symm

namespace HttpServer

variable {env : Env} {g : HttpServer} {url : List UInt8}

theorem zero_notMem_of_deref {p : Option Ptr} (h : g.deref p = .ok url) : (0 : UInt8) ∉ url := by
  unfold deref at h
  split at h
  · cases h
  · split_ifs at h
    split at h
    · cases h
    · rename_i ht
      cases h
      exact zero_notMem_of_cstr ht

/-! ## The file name -/

theorem length_localFileAddr : localFileAddr.length = 10 := by decide

theorem fileName_cells (hf : g.mFilename = .fill filenameLen 0) (hle : url.length ≤ 190) :
    ∃ b, g.fileName url = .ok b ∧
      b.cells = localFileAddr ++ url ++ List.replicate (190 - url.length) 0 := by
  have hten := length_localFileAddr
  obtain ⟨a, ha, hac⟩ := @Block.write_of_le _ _ (.fill filenameLen (0 : UInt8)) 0 localFileAddr
    (by rw [hten]; decide)
  obtain ⟨b, hb, hbc⟩ := @Block.write_of_le _ _ a 10 url (by
    rw [filenameLen]
    omega)
  refine ⟨b, by simp [fileName, hf, ha, hb], ?_⟩
  have hac' : a.cells = localFileAddr ++ List.replicate 190 0 := by
    rw [hac, Block.splice, hten]
    simp [Block.fill, filenameLen]
  rw [hbc, hac', Block.splice, List.take_left' hten, ← hten, ← List.drop_drop, List.drop_left,
    List.drop_replicate]

theorem fileName_of_fits (hf : g.mFilename = .fill filenameLen 0) (hurl : (0 : UInt8) ∉ url)
    (hfit : url.length < 190) :
    ∃ b, g.fileName url = .ok b ∧ cstr b.cells 0 = some (localFileAddr ++ url) := by
  obtain ⟨b, hb, hcells⟩ := fileName_cells hf hfit.le
  have hnul : (0 : UInt8) ∉ localFileAddr := by decide
  have hsucc : 190 - url.length = 189 - url.length + 1 := by omega
  refine ⟨b, hb, ?_⟩
  rw [hcells, cstr_eq_some_iff, List.drop_zero, hsucc, List.replicate_succ]
  exact ⟨by simp [hurl, hnul], List.replicate (189 - url.length) 0, by simp⟩

theorem fileName_of_long (hf : g.mFilename = .fill filenameLen 0) (hurl : (0 : UInt8) ∉ url)
    (hlong : 190 ≤ url.length) :
    g.fileName url = .error .filename ∨
      ∃ b, g.fileName url = .ok b ∧ cstr b.cells 0 = none := by
  rcases Nat.lt_or_ge 190 url.length with hlt | hge
  · left
    have hten := length_localFileAddr
    obtain ⟨a, ha, -⟩ := @Block.write_of_le _ _ (.fill filenameLen (0 : UInt8)) 0 localFileAddr
      (by rw [hten]; decide)
    have hnone : a.write 10 url = none := Block.write_eq_none.mpr (by rw [filenameLen]; omega)
    simp [fileName, hf, ha, hnone]
  · right
    obtain ⟨b, hb, hcells⟩ := fileName_cells hf hge
    have hnul : (0 : UInt8) ∉ localFileAddr := by decide
    refine ⟨b, hb, ?_⟩
    rw [cstr, hcells, show 190 - url.length = 0 by omega, if_neg (by simp [hurl, hnul])]

/-! ## The request -/

variable (env) in
theorem doRequest_of_fits (hm : g.mMethod ≠ .options) (hu : g.deref g.mUrl = .ok url)
    (hf : g.mFilename = .fill filenameLen 0) (hfit : url.length < 190) :
    ∃ b, cstr b.cells 0 = some (localFileAddr ++ url) ∧ doRequest env g =
      .ok (statFile env { g with mFilename := b } (localFileAddr ++ url)) := by
  obtain ⟨b, hb, hc⟩ := fileName_of_fits hf (zero_notMem_of_deref hu) hfit
  refine ⟨b, hc, ?_⟩
  simp [doRequest, hm, hu, hb, hc, bind, Except.bind]

variable (env) in
theorem doRequest_of_long (hm : g.mMethod ≠ .options) (hu : g.deref g.mUrl = .ok url)
    (hf : g.mFilename = .fill filenameLen 0) (hlong : 190 ≤ url.length) :
    doRequest env g = .error .filename := by
  rcases fileName_of_long hf (zero_notMem_of_deref hu) hlong with he | ⟨b, hb, hc⟩
  · simp [doRequest, hm, hu, he, bind, Except.bind]
  · simp [doRequest, hm, hu, hb, hc, bind, Except.bind]

theorem doRequest_returns_iff {m : Method} (hm : g.mMethod = m) (hu : g.deref g.mUrl = .ok url)
    (hf : g.mFilename = .fill filenameLen 0) :
    (∃ code k, doRequest env g = .ok (code, k)) ↔ UrlFits m url := by
  subst hm
  by_cases hopt : g.mMethod = .options
  · exact iff_of_true ⟨_, _, by rw [doRequest, if_pos hopt]⟩ (Or.inl hopt)
  · rcases Nat.lt_or_ge url.length 190 with hfit | hlong
    · obtain ⟨b, -, hd⟩ := doRequest_of_fits env hopt hu hf hfit
      exact iff_of_true ⟨_, _, hd⟩ (Or.inr hfit)
    · have hd := doRequest_of_long env hopt hu hf hlong
      refine iff_of_false ?_ fun hs => hs.elim hopt fun h => absurd h (not_lt.mpr hlong)
      rintro ⟨code, k, hk⟩
      rw [hd] at hk
      cases hk

/-- **A fresh object returns** from `process_read` exactly on the bodies that are `SafeBody`. -/
theorem processRead_returns_iff (env : Env) (u : Uninit) (body : List UInt8)
    (hroom : body.length < 2 ^ 16) :
    (∃ code h, processRead env ((new u).receive body) = .ok (code, h)) ↔ SafeBody body := by
  have hd := processRead_reads env u hroom
  rw [safeBody_iff]
  cases hr : reading body with
  | fault =>
    rw [hr] at hd
    obtain ⟨e, he⟩ := hd
    refine iff_of_false ?_ id
    rintro ⟨code, h, hk⟩
    rw [he] at hk
    cases hk
  | bad =>
    rw [hr] at hd
    obtain ⟨g, hg, -⟩ := hd
    exact iff_of_true ⟨_, g, hg⟩ trivial
  | request m url =>
    rw [hr] at hd
    obtain ⟨g, hg, hm, hu, ho⟩ := hd
    rw [hg]
    exact doRequest_returns_iff hm hu (congrArg mFilename ho :)

/-- A request with a host. -/
theorem processRead_returns_host :
    SafeBody (ascii "GET http://h/x HTTP/1.1\r\nHost: h\r\n\r\n") ∧
    ∃ code h, processRead .noFiles ((new .zero).receive
      (ascii "GET http://h/x HTTP/1.1\r\nHost: h\r\n\r\n")) = .ok (code, h) :=
  have hsafe : SafeBody (ascii "GET http://h/x HTTP/1.1\r\nHost: h\r\n\r\n") := by
    decide +kernel
  ⟨hsafe, (processRead_returns_iff .noFiles .zero _ (by decide)).mpr hsafe⟩

/-- A header line without a colon. -/
theorem not_processRead_returns : ¬ ∀ (env : Env) (u : Uninit) (body : List UInt8),
    body.length < 2 ^ 16 →
      ∃ code h, processRead env ((new u).receive body) = .ok (code, h) := by
  intro h
  obtain ⟨code, g, hg⟩ := h .noFiles .zero
    (ascii "GET http://h/x HTTP/1.1\r\nHost\r\n\r\n") (by decide)
  have he : processRead .noFiles ((new .zero).receive
      (ascii "GET http://h/x HTTP/1.1\r\nHost\r\n\r\n")) = .error .nullDeref := by
    rfl
  rw [he] at hg
  cases hg

end HttpServer

end ServerNginx
