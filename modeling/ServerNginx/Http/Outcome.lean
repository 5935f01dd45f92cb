import ServerNginx.Http.Served

set_option autoImplicit false

/-!
# What a fresh object hands to its response

`outcome env u body` is the code of `process_read` and what the response depends on, as a function
of the packet, of the file system and of the object before its first packet.

* `statFile_asked`: `do_request` on a file is `Asked.file`;
* **`processRead_outcome`**: `process_read` on a fresh object ends in `outcome`.
-/

namespace ServerNginx

open CString CNumber

namespace Asked

variable (env : Env) (a : Asked) (path : List UInt8)

/-- `if(!(m_range_start < 0 || m_range_end > m_stat.st_size))`, as in `range`. -/
def RangeFits : Prop := ¬ (a.rangeStart < 0 ∨ a.stat.stSize < a.rangeEnd)

instance : Decidable a.RangeFits := by
  unfold RangeFits
  infer_instance

/-- A file that is mapped. -/
def mapped : HttpCode × Asked :=
  if (a.rangeStart ≠ 0 ∧ a.rangeEnd ≠ 0) ∧ a.RangeFits then
    (.partialContent, { a with contentLength := int32 (a.rangeEnd - a.rangeStart + 1) })
  else (.fileRequest, { a with contentLength := int32 a.stat.stSize })

/-- A file that is opened. -/
def openFile : HttpCode × Asked :=
  if env.openOk path ∧ a.stat.stSize ≠ 0 ∧ (env.mmap path).isSome then a.mapped
  else (.internalError, a)

/-- The file a request names. -/
def file : HttpCode × Asked :=
  match env.stat path with
  | none => (.noResource, a)
  | some st =>
    let a := { a with stat := st }
    if st.isDir then (.badRequest, a)
    else if !st.iroth then (.forbiddenRequest, a)
    else if a.ifModifiedSince ≠ 0 then
      if a.ifModifiedSince < st.stMtime then
        { a with callbacks := a.callbacks ++ [Callback.ifModifiedSince] }.openFile env path
      else (.notModified, a)
    else a.openFile env path

end Asked

/-- The code and the members a response depends on, behind a body that is read without a fault. -/
def outcome (env : Env) (u : Uninit) (body : List UInt8) : Option (HttpCode × Asked) :=
  let a := (HttpServer.new u).asked.body env body
  match reading body with
  | .fault => none
  | .bad => some (.badRequest, a)
  | .request m url =>
    if m = .options then some (.fileRequest, a)
    else if url.length < 190 then some (a.file env (localFileAddr ++ url))
    else none

/-! ## What every request has -/

/-- The methods a request line can set. -/
def methods : List Method := [.get, .post, .head, .options]

theorem methodOf_mem {name : List UInt8} {old : Method} (ho : old ∈ methods) :
    HttpServer.methodOf name old ∈ methods := by
  unfold HttpServer.methodOf
  split_ifs
  · decide
  · decide
  · decide
  · decide
  · exact ho

namespace Asked

variable {env : Env} {a : Asked} {path : List UInt8}

theorem value_method (name v : List UInt8) : (a.value env name v).method = a.method := by
  unfold Asked.value Asked.length Asked.range
  dsimp only
  split_ifs
  · split <;> rfl
  · split
    · rfl
    · split <;> rfl
  all_goals rfl

theorem line_method (t : List UInt8) : (a.line env t).method = a.method := by
  unfold Asked.line
  split
  · rfl
  · exact value_method _ _

theorem headers_method (ls : List (List UInt8)) : ∀ a : Asked,
    (a.headers env ls).method = a.method := by
  induction ls with
  | nil => exact fun _ => rfl
  | cons l ls ih =>
    intro a
    rw [Asked.headers]
    split_ifs
    · rfl
    · exact line_method _
    · exact (ih _).trans (line_method _)

theorem body_method {m : Method} {url body : List UInt8} (ha : a.method = .get)
    (hr : reading body = .request m url) : (a.body env body).method = m := by
  obtain ⟨l, ls, hl, hline⟩ := reading_request hr
  unfold Asked.body
  rw [hl]
  dsimp only
  rw [ha, hline]
  dsimp only
  rw [headers_method, Asked.request, requestMethod, ha]
  unfold requestLine at hline
  obtain ⟨i, hi, hline⟩ := Option.bind_eq_some_iff.mp hline
  obtain ⟨j, -, hline⟩ := Option.bind_eq_some_iff.mp hline
  split_ifs at hline
  obtain ⟨k, -, hline⟩ := Option.map_eq_some_iff.mp hline
  rw [hi]
  exact congrArg Prod.fst hline

/-- One of the methods there are functions for, and a content length that is an `int`. -/
structure Proper (a : Asked) : Prop where
  method : a.method ∈ methods
  length : -2 ^ 31 ≤ a.contentLength ∧ a.contentLength < 2 ^ 31

theorem Proper.of_eq (ha : a.Proper) {b : Asked} (hm : b.method = a.method)
    (hl : b.contentLength = a.contentLength) : b.Proper :=
  ⟨hm ▸ ha.method, hl ▸ ha.length⟩

theorem Proper.value (ha : a.Proper) (name v : List UInt8) : (a.value env name v).Proper := by
  refine ⟨by rw [value_method]; exact ha.method, ?_⟩
  unfold Asked.value Asked.length Asked.range
  dsimp only
  split_ifs
  · split
    · exact stoi_bounds ‹_›
    · exact ha.length
  · split
    · exact ha.length
    · split <;> exact ha.length
  all_goals exact ha.length

theorem Proper.line (ha : a.Proper) (t : List UInt8) : (a.line env t).Proper := by
  unfold Asked.line
  split
  · exact ha
  · exact ha.value _ _

theorem Proper.headers (ls : List (List UInt8)) : ∀ {a : Asked}, a.Proper →
    (a.headers env ls).Proper := by
  induction ls with
  | nil => exact fun ha => ha
  | cons l ls ih =>
    intro a ha
    rw [Asked.headers]
    split_ifs
    · exact ha
    · exact ha.line _
    · exact ih (ha.line _)

theorem Proper.request (ha : a.Proper) (t : List UInt8) : (a.request t).Proper := by
  refine ⟨?_, ha.length⟩
  unfold Asked.request requestMethod
  dsimp only
  split
  · exact ha.method
  · exact methodOf_mem ha.method

theorem Proper.body (ha : a.Proper) (body : List UInt8) : (a.body env body).Proper := by
  unfold Asked.body
  split
  · exact ha
  · split
    · exact ha.request _
    · exact (ha.request _).headers _

/-- A part of a file is part of it. -/
def Consistent (code : HttpCode) (a : Asked) : Prop :=
  a.Proper ∧ (code = .partialContent → a.RangeFits ∧
    a.contentLength = int32 (a.rangeEnd - a.rangeStart + 1)) ∧
    (code = .fileRequest → a.method ≠ .options → a.contentLength = int32 a.stat.stSize)

theorem Proper.mapped (ha : a.Proper) : Consistent a.mapped.1 a.mapped.2 := by
  unfold Asked.mapped
  split_ifs with h
  · exact ⟨⟨ha.method, int32_bounds _⟩, fun _ => ⟨h.2, rfl⟩, nofun⟩
  · exact ⟨⟨ha.method, int32_bounds _⟩, nofun, fun _ _ => rfl⟩

theorem Proper.openFile (ha : a.Proper) :
    Consistent (a.openFile env path).1 (a.openFile env path).2 := by
  unfold Asked.openFile
  split_ifs
  · exact ha.mapped
  · exact ⟨ha, nofun, nofun⟩

theorem Proper.file (ha : a.Proper) : Consistent (a.file env path).1 (a.file env path).2 := by
  unfold Asked.file
  split
  · exact ⟨ha, nofun, nofun⟩
  · dsimp only
    split_ifs
    · exact ⟨ha.of_eq rfl rfl, nofun, nofun⟩
    · exact ⟨ha.of_eq rfl rfl, nofun, nofun⟩
    · exact Proper.openFile (ha.of_eq rfl rfl)
    · exact ⟨ha.of_eq rfl rfl, nofun, nofun⟩
    · exact Proper.openFile (ha.of_eq rfl rfl)

end Asked

section outcome

variable {env : Env} {u : Uninit} {body : List UInt8} {code : HttpCode} {a : Asked}

theorem outcome_cases (ho : outcome env u body = some (code, a)) :
    let b := (HttpServer.new u).asked.body env body
    (code = .badRequest ∧ a = b) ∨ ∃ m url, reading body = .request m url ∧
      ((code = .fileRequest ∧ a = b ∧ a.method = .options) ∨
        b.file env (localFileAddr ++ url) = (code, a)) := by
  unfold outcome at ho
  dsimp only at ho
  split at ho
  · cases ho
  · cases ho
    exact Or.inl ⟨rfl, rfl⟩
  · rename_i m url hr
    split_ifs at ho with hopt
    · cases ho
      exact Or.inr ⟨m, url, hr, Or.inl ⟨rfl, rfl, (Asked.body_method rfl hr).trans hopt⟩⟩
    · exact Or.inr ⟨m, url, hr, Or.inr (Option.some.inj ho)⟩

/-- **Every outcome** is consistent. -/
theorem outcome_consistent (ho : outcome env u body = some (code, a)) : a.Consistent code := by
  have hget : (HttpServer.new u).asked.method ∈ methods := List.mem_cons_self
  have hint : -2 ^ 31 ≤ (0 : ℤ) ∧ (0 : ℤ) < 2 ^ 31 := by decide
  have hnew : ((HttpServer.new u).asked.body env body).Proper := Asked.Proper.body ⟨hget, hint⟩ body
  rcases outcome_cases ho with ⟨rfl, rfl⟩ | ⟨m, url, -, ⟨rfl, rfl, hopt⟩ | hfile⟩
  · exact ⟨hnew, nofun, nofun⟩
  · exact ⟨hnew, nofun, fun _ hm => absurd hopt hm⟩
  · have hf := @Asked.Proper.file env _ (localFileAddr ++ url) hnew
    rw [hfile] at hf
    exact hf

end outcome

namespace HttpServer

variable {env : Env} {h g : HttpServer} {code : HttpCode} {path : List UInt8}

variable (env h) in
theorem openFile_asked (path : List UInt8) :
    ((openFile env h path).1, (openFile env h path).2.asked) = h.asked.openFile env path := by
  unfold openFile Asked.openFile
  by_cases hopen : env.openOk path
  · rw [if_neg (by simp [hopen])]
    cases hmap : if h.mStat.stSize = 0 then none else env.mmap path with
    | none =>
      rw [if_neg]
      · rfl
      · rintro ⟨-, hsize, hsome⟩
        rw [if_neg (show h.mStat.stSize ≠ 0 from hsize)] at hmap
        rw [hmap] at hsome
        cases hsome
    | some content =>
      have hsize : h.mStat.stSize ≠ 0 := fun h0 => by
        rw [if_pos h0] at hmap
        cases hmap
      rw [if_neg hsize] at hmap
      rw [if_pos ⟨hopen, hsize, by rw [hmap, Option.isSome_some]⟩]
      exact (apply_ite (fun q : HttpCode × HttpServer => (q.1, q.2.asked)) _ _ _).trans rfl
  · rw [if_pos (by simp [hopen]), if_neg fun hall => hopen hall.1]

variable (env) in
/-- **`do_request` from `stat` on**, for an object without a time of `If-Unmodified-Since`. -/
theorem statFile_asked (hun : h.mIfUnmodifiedSinceTime = 0) (path : List UInt8) :
    ((statFile env h path).1, (statFile env h path).2.asked) = h.asked.file env path := by
  unfold statFile Asked.file
  cases env.stat path with
  | none => rfl
  | some st =>
    dsimp only
    have hsince : h.asked.ifModifiedSince = h.mIfModifiedSinceTime := rfl
    rw [hun, hsince]
    split_ifs with hdir hoth hmod hnew hpre
    · rfl
    · rfl
    · exact openFile_asked env _ path
    · rfl
    · exact absurd rfl hpre.1
    · exact openFile_asked env _ path

/-! ## Fresh objects -/

/-- Nothing has been written to the buffer or to `m_iov`. -/
structure Unwritten (u : Uninit) (h : HttpServer) : Prop where
  buffer : h.mWriteBuffer = []
  iov : h.mIov = [⟨.unset, 0⟩, u.mIov1, u.mIov2]
  count : h.mIovCount = 0

theorem Unwritten.of_outer {u : Uninit} {body : List UInt8}
    (ho : g.outer = ((new u).receive body).outer) : Unwritten u g where
  buffer := (congrArg mWriteBuffer ho :)
  iov := (congrArg mIov ho :)
  count := (congrArg mIovCount ho :)

theorem Unwritten.congr {u : Uninit} (hg : Unwritten u g) (hb : h.besideFile = g.besideFile) :
    Unwritten u h where
  buffer := (congrArg mWriteBuffer hb :).trans hg.buffer
  iov := (congrArg mIov hb :).trans hg.iov
  count := (congrArg mIovCount hb :).trans hg.count

/-- **`process_read` on a fresh object** ends in `outcome`, with nothing written. -/
theorem processRead_outcome (env : Env) (u : Uninit) {body : List UInt8}
    (hroom : body.length < 2 ^ 16) :
    match outcome env u body with
    | none => ∃ e, processRead env ((new u).receive body) = .error e
    | some (code, a) => ∃ h, processRead env ((new u).receive body) = .ok (code, h) ∧
        h.asked = a ∧ Unwritten u h := by
  have hd := processRead_ends env u hroom
  unfold outcome
  dsimp only
  cases hr : reading body with
  | fault =>
    rw [hr] at hd
    exact hd
  | bad =>
    rw [hr] at hd
    obtain ⟨g, hg, ho, ha⟩ := hd
    exact ⟨g, hg, ha, .of_outer ho⟩
  | request m url =>
    rw [hr] at hd
    obtain ⟨g, hg, hm, hu, ho, ha⟩ := hd
    have hf : g.mFilename = .fill filenameLen 0 := (congrArg mFilename ho :)
    have hun : g.mIfUnmodifiedSinceTime = 0 := (congrArg mIfUnmodifiedSinceTime ho :)
    dsimp only
    split_ifs with hopt hfit
    · exact ⟨g, by rw [hg, doRequest, if_pos (hm.trans hopt)], ha, .of_outer ho⟩
    · obtain ⟨b, -, hdo⟩ := doRequest_of_fits env (fun h => hopt (hm.symm.trans h)) hu hf hfit
      have hs := statFile_asked env (h := { g with mFilename := b }) hun (localFileAddr ++ url)
      have hb := statFile_besideFile env { g with mFilename := b } (localFileAddr ++ url)
      rw [← ha, show g.asked.file env (localFileAddr ++ url) = _ from hs.symm]
      have hw : Unwritten u { g with mFilename := b } := by
        have := Unwritten.of_outer ho
        exact ⟨this.buffer, this.iov, this.count⟩
      exact ⟨_, hg.trans hdo, rfl, hw.congr hb⟩
    · exact ⟨_, hg.trans (doRequest_of_long env (fun h => hopt (hm.symm.trans h)) hu hf
        (not_lt.mp hfit))⟩

end HttpServer

end ServerNginx
