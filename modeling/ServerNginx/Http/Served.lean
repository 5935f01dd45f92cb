import ServerNginx.Http.Safe
import ServerNginx.Lib.Path

set_option autoImplicit false

/-!
# The files a request can name

`askedPath` is the path `do_request` gave to `stat` and `open`; `UnderResource path` says that it
resolves into `./Resource`.

**`underResource_iff`**: on a fresh object it does exactly where the URL never climbs out of
`./Resource`, or climbs to the working directory exactly and back into `Resource`.
-/

namespace ServerNginx

open CString Path

/-- A component of a path given in bytes. -/
def comp : List UInt8 → Comp (List UInt8)
  | [] => .here
  | [46] => .here
  | [46, 46] => .up
  | name => .name name

/-- The components of a path or of a URL. -/
def comps (path : List UInt8) : List (Comp (List UInt8)) := (path.splitOn 47).map comp

/-- The resource directory. -/
def resource : List UInt8 := ascii "Resource"

/-- The path resolves to `./Resource` or to something below it. -/
def UnderResource (path : List UInt8) : Prop := (resolve (comps path)).head? = some (.name resource)

instance (path : List UInt8) : Decidable (UnderResource path) := by
  unfold UnderResource
  infer_instance

/-- Behind its slash, the URL never climbs above its start, or it climbs one directory up exactly,
then names `Resource` and never climbs out of it again. -/
def StaysInside (url : List UInt8) : Prop :=
  (walk 0 (comps (url.drop 1))).isSome ∨
    ∃ p q, comps (url.drop 1) = p ++ .name resource :: q ∧ walk 1 p = some 0 ∧ (walk 0 q).isSome

theorem comps_append (p t : List UInt8) : comps (p ++ 47 :: t) = comps p ++ comps t := by
  rw [comps, List.splitOn_append_cons_self, List.map_append]
  rfl

theorem underResource_localFileAddr (t : List UInt8) :
    UnderResource (localFileAddr ++ 47 :: t) ↔ StaysInside (47 :: t) := by
  have hdir : comps localFileAddr = [.here, .name resource] := by decide
  have hpath : comps (localFileAddr ++ 47 :: t) = .here :: .name resource :: comps t := by
    rw [comps_append, hdir]
    rfl
  rw [UnderResource, hpath, head?_resolve_eq_name_iff, enters_cons_here, enters_cons_name]
  rfl

theorem exists_cons_of_requestLine {old m : Method} {t url : List UInt8}
    (h : requestLine old t = some (m, url)) : ∃ r, url = 47 :: r := by
  unfold requestLine at h
  obtain ⟨i, -, h⟩ := Option.bind_eq_some_iff.mp h
  obtain ⟨j, -, h⟩ := Option.bind_eq_some_iff.mp h
  split_ifs at h
  obtain ⟨k, hk, h⟩ := Option.map_eq_some_iff.mp h
  cases h
  obtain ⟨hlt, hc, -⟩ := List.findIdx?_eq_some_iff_getElem.mp hk
  exact ⟨_, by rw [List.drop_eq_getElem_cons hlt, of_decide_eq_true hc]⟩

theorem eq_ok_of_toOption {α : Type} {r : Except Fault α} {a : α} (h : r.toOption = some a) :
    r = .ok a := by
  cases r with
  | error e => cases h
  | ok b =>
    cases h
    rfl

theorem readContent_request {len : ℕ} {found : Reading} {n : ℤ} {m : Method} {url : List UInt8}
    (ls : List (List UInt8)) : ∀ pos : ℕ,
    readContent len found n pos ls = .request m url → found = .request m url := by
  induction ls with
  | nil => exact fun _ h => nomatch h
  | cons l ls ih =>
    intro pos h
    dsimp only [readContent] at h
    split_ifs at h
    · exact h
    · exact ih _ h

theorem readHeaders_request {len : ℕ} {found : Reading} {m : Method} {url : List UInt8}
    (ls : List (List UInt8)) : ∀ (n : ℤ) (pos : ℕ),
    readHeaders len found n pos ls = .request m url → found = .request m url := by
  induction ls with
  | nil => exact fun _ _ h => nomatch h
  | cons l ls ih =>
    intro n pos h
    dsimp only [readHeaders] at h
    split_ifs at h
    · exact readContent_request ls _ h
    · exact h
    · exact ih _ _ h

theorem reading_request {body : List UInt8} {m : Method} {url : List UInt8}
    (h : reading body = .request m url) :
    ∃ l ls, lines body = l :: ls ∧ requestLine .get (lineText l) = some (m, url) := by
  unfold reading at h
  split at h
  · cases h
  · rename_i l ls hl
    split at h
    · cases h
    · rename_i m' url' hr
      cases readHeaders_request ls _ _ h
      exact ⟨l, ls, hl, hr⟩

namespace HttpServer

variable {env : Env} {g h : HttpServer} {code : HttpCode} {path url : List UInt8}

/-- The path in `m_filename`, which `do_request` gave to `stat` and `open`; `bzero` leaves none. -/
def askedPath (h : HttpServer) : Option (List UInt8) :=
  (cstr h.mFilename.cells 0).filter fun path => path ≠ []

theorem askedPath_of_fill (hf : h.mFilename = .fill filenameLen 0) : h.askedPath = none := by
  rw [askedPath, hf]
  decide +kernel

/-- The members `stat`, `open` and `mmap` say nothing about. -/
def besideFile (h : HttpServer) : HttpServer :=
  { h with
    mFilePtr := .null
    mStat := ⟨0, 0, false, false⟩
    mContentLength := 0
    mHeaderFuncVec := [] }

variable (env g) in
theorem openFile_besideFile (path : List UInt8) :
    (openFile env g path).2.besideFile = g.besideFile := by
  unfold openFile
  split
  · rfl
  · split
    · rfl
    · dsimp only
      split <;> rfl

variable (env g) in
theorem statFile_besideFile (path : List UInt8) :
    (statFile env g path).2.besideFile = g.besideFile := by
  unfold statFile
  split
  · rfl
  · dsimp only
    split_ifs
    · rfl
    · rfl
    · exact openFile_besideFile _ _ path
    · rfl
    · rfl
    · exact openFile_besideFile _ _ path

/-- **Whether a path stays in `./Resource`** depends on the URL of the request line alone. -/
theorem underResource_iff (env : Env) (u : Uninit) (body : List UInt8)
    (hroom : body.length < 2 ^ 16) (hread : processRead env ((new u).receive body) = .ok (code, h))
    (hask : h.askedPath = some path) :
    ∃ l ls m url, lines body = l :: ls ∧ requestLine .get (lineText l) = some (m, url) ∧
      path = localFileAddr ++ url ∧ (UnderResource path ↔ StaysInside url) := by
  have hd := processRead_reads env u hroom
  rw [hread] at hd
  cases hr : reading body with
  | fault =>
    rw [hr] at hd
    obtain ⟨e, he⟩ := hd
    cases he
  | bad =>
    rw [hr] at hd
    obtain ⟨g, hg, ho⟩ := hd
    cases hg
    have hf : h.mFilename = .fill filenameLen 0 := (congrArg mFilename ho :)
    rw [askedPath_of_fill hf] at hask
    cases hask
  | request m url =>
    rw [hr] at hd
    obtain ⟨g, hg, hm, hu, ho⟩ := hd
    have hf : g.mFilename = .fill filenameLen 0 := (congrArg mFilename ho :)
    obtain ⟨l, ls, hl, hline⟩ := reading_request hr
    obtain ⟨r, rfl⟩ := exists_cons_of_requestLine hline
    by_cases hopt : g.mMethod = .options
    · rw [doRequest, if_pos hopt] at hg
      cases hg
      rw [askedPath_of_fill hf] at hask
      cases hask
    · rcases Nat.lt_or_ge (47 :: r).length 190 with hfit | hlong
      · obtain ⟨b, hb, hdo⟩ := doRequest_of_fits env hopt hu hf hfit
        rw [hdo] at hg
        have hfile : h.mFilename = b := by
          have := statFile_besideFile env { g with mFilename := b } (localFileAddr ++ 47 :: r)
          rw [← Except.ok.inj hg] at this
          exact congrArg mFilename this
        rw [askedPath, hfile, hb] at hask
        obtain ⟨hpath, -⟩ := Option.filter_eq_some_iff.mp hask
        cases hpath
        exact ⟨l, ls, m, _, hl, hline, rfl, underResource_localFileAddr r⟩
      · rw [doRequest_of_long env hopt hu hf hlong] at hg
        cases hg

/-- A file in the resource directory. -/
theorem underResource_plain : ∃ code h path, processRead .noFiles ((new .zero).receive
    (ascii "GET http://h/a/../x HTTP/1.1\r\n\r\n")) = .ok (code, h) ∧
    h.askedPath = some path ∧ UnderResource path := by
  have hrun : (processRead .noFiles ((new .zero).receive
      (ascii "GET http://h/a/../x HTTP/1.1\r\n\r\n"))).toOption.bind (fun r => r.2.askedPath) =
      some (localFileAddr ++ ascii "/a/../x") := by rfl
  obtain ⟨⟨code, h⟩, hr, hask⟩ := Option.bind_eq_some_iff.mp hrun
  have hread := eq_ok_of_toOption hr
  obtain ⟨l, ls, m, url, -, -, hpath, hiff⟩ :=
    underResource_iff .noFiles .zero _ (by decide) hread hask
  obtain rfl := List.append_cancel_left hpath
  exact ⟨code, h, _, hread, hask, hiff.mpr (Or.inl (by decide))⟩

/-- A file next to the resource directory. -/
theorem not_underResource : ¬ ∀ (env : Env) (u : Uninit) (body : List UInt8),
    body.length < 2 ^ 16 → ∀ code h path,
      processRead env ((new u).receive body) = .ok (code, h) → h.askedPath = some path →
        UnderResource path := by
  intro hall
  have hrun : (processRead .noFiles ((new .zero).receive
      (ascii "GET http://h/../file.txt HTTP/1.1\r\n\r\n"))).toOption.bind
        (fun r => r.2.askedPath) = some (ascii "./Resource/../file.txt") := by rfl
  obtain ⟨⟨code, h⟩, hr, hask⟩ := Option.bind_eq_some_iff.mp hrun
  have hread := eq_ok_of_toOption hr
  have hunder := hall _ _ _ (by decide) _ _ _ hread hask
  exact absurd hunder (by decide)

end HttpServer

end ServerNginx
