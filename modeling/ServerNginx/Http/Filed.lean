import ServerNginx.Http.Iterate

set_option autoImplicit false

/-!
# The file behind a response

`m_file_ptr` changes in `do_request` alone: it stays, becomes `MAP_FAILED`, or becomes a mapping of
the file the request names.

* `SendsFile h code`: the responses with a file behind them;
* `readText_outer`: the parsers leave `m_file_ptr` alone;
* **`processRead_filed`**: what `process_read` leaves in `m_file_ptr`.
-/

namespace ServerNginx

open CString

namespace HttpServer

variable {env : Env} {h g k : HttpServer} {code : HttpCode} {path : List UInt8}

/-- The request has got a file, or a part of it. -/
def SendsFile (h : HttpServer) (code : HttpCode) : Prop :=
  code = .partialContent ∨ code = .fileRequest ∧ h.mMethod ≠ .options

/-- `m_file_ptr` shows the file `m_stat` is about. -/
def Opened (env : Env) (g : HttpServer) : Prop :=
  ∃ path content, g.mFilePtr = .mapped g.pkt content ∧ env.stat path = some g.mStat ∧
    env.mmap path = some content

/-- What a request handled on `h` leaves in `m_file_ptr`. -/
structure Filed (env : Env) (h : HttpServer) (code : HttpCode) (g : HttpServer) : Prop where
  pkt : g.pkt = h.pkt
  sends : SendsFile g code → Opened env g
  keeps : ¬ SendsFile g code → g.mFilePtr = h.mFilePtr ∨ g.mFilePtr = .mapFailed

theorem Filed.congr (hf : Filed env k code g) (hp : k.pkt = h.pkt)
    (hm : k.mFilePtr = h.mFilePtr) : Filed env h code g where
  pkt := hf.pkt.trans hp
  sends := hf.sends
  keeps := fun hn => hm ▸ hf.keeps hn

theorem filed_of_not (hn : ¬ SendsFile g code) (hp : g.pkt = h.pkt)
    (hm : g.mFilePtr = h.mFilePtr ∨ g.mFilePtr = .mapFailed) : Filed env h code g :=
  ⟨hp, fun hs => absurd hs hn, fun _ => hm⟩

/-! ## `do_request` -/

theorem openFile_filed (hst : env.stat path = some h.mStat) (hm : h.mMethod ≠ .options) :
    Filed env h (openFile env h path).1 (openFile env h path).2 := by
  unfold openFile
  split
  · exact filed_of_not (by simp [SendsFile]) rfl (Or.inl rfl)
  · cases hmap : if h.mStat.stSize = 0 then none else env.mmap path with
    | none => exact filed_of_not (by simp [SendsFile]) rfl (Or.inr rfl)
    | some content =>
      have hcontent : env.mmap path = some content := by
        split_ifs at hmap
        exact hmap
      dsimp only
      split_ifs
      · exact ⟨rfl, fun _ => ⟨path, content, rfl, hst, hcontent⟩, fun hn => absurd (Or.inl rfl) hn⟩
      · exact ⟨rfl, fun _ => ⟨path, content, rfl, hst, hcontent⟩,
          fun hn => absurd (Or.inr ⟨rfl, hm⟩) hn⟩

theorem statFile_filed (hm : h.mMethod ≠ .options) :
    Filed env h (statFile env h path).1 (statFile env h path).2 := by
  unfold statFile
  cases hst : env.stat path with
  | none => exact filed_of_not (by simp [SendsFile]) rfl (Or.inl rfl)
  | some st =>
    dsimp only
    split_ifs
    · exact filed_of_not (by simp [SendsFile]) rfl (Or.inl rfl)
    · exact filed_of_not (by simp [SendsFile]) rfl (Or.inl rfl)
    · refine Filed.congr (openFile_filed ?_ ?_) rfl rfl
      · exact hst
      · exact hm
    · exact filed_of_not (by simp [SendsFile]) rfl (Or.inl rfl)
    · exact filed_of_not (by simp [SendsFile]) rfl (Or.inl rfl)
    · refine Filed.congr (openFile_filed ?_ ?_) rfl rfl
      · exact hst
      · exact hm

theorem doRequest_filed : Post (doRequest env h) (fun _ => True) fun p =>
    Filed env h p.1 p.2 := by
  unfold doRequest
  split_ifs with hm
  · exact filed_of_not (by simp [SendsFile, hm]) rfl (Or.inl rfl)
  · refine ((deref_post h.mUrl).weaken fun _ _ => trivial).bind fun url _ => ?_
    have hname : Post (h.fileName url) (fun _ => True) fun _ => True := by
      unfold fileName
      split <;> trivial
    refine hname.bind fun name _ => ?_
    dsimp only
    split
    · trivial
    · rw [Post.ok_iff]
      refine Filed.congr (statFile_filed ?_) rfl rfl
      exact hm

/-! ## The parsers -/

theorem parseHeader_outer {base : ℕ} {t : List UInt8} (ht : cstr h.mReadBuffer base = some t) :
    Post (parseHeader env h base t) (fun _ => True) fun p => p.2.outer = h.outer := by
  cases hr : parseHeader env h base t with
  | error e => trivial
  | ok p =>
    obtain ⟨c, g⟩ := p
    obtain ⟨-, -, rfl⟩ | ⟨-, rfl⟩ | ⟨-, hcut⟩ := parseHeader_of_ok (length_of_cstr ht).le hr
    · exact rfl
    · exact rfl
    · exact outer_of_core hcut.core

variable (env) in
/-- **The parsers** stay away from what `outer` keeps. -/
theorem readText_outer (hs : Sound h) :
    Post (readText env h) (fun _ => True) fun p => p.2.outer = h.outer := by
  cases hr : readText env h with
  | error e => trivial
  | ok p =>
    obtain ⟨c, k⟩ := p
    show k.outer = h.outer
    obtain ⟨-, st, hsk⟩ | ⟨g, t, -, hsg, ht, hparsed⟩ := readText_cases hs hr
    · exact hsk.outer
    · have hnext : g.startNext.outer = h.outer := hsg.outer
      refine Eq.trans ?_ hnext
      cases hparsed with
      | requestLine _ hp =>
        obtain ⟨c', k', hk, -, -, hc, -⟩ := parseRequest_spec ht
        rw [hk] at hp
        cases hp
        exact outer_of_requestCore hc
      | header _ hp => exact (parseHeader_outer ht).of_ok hp
      | content _ hp =>
        obtain ⟨-, rfl⟩ | ⟨-, rfl⟩ := parseContent_of_ok hp
        · rfl
        · rfl

/-! ## `process_read` -/

theorem filed_of_outer (ho : k.outer = h.outer) (hf : Filed env k code g) : Filed env h code g :=
  hf.congr (congrArg HttpServer.pkt ho :) (congrArg mFilePtr ho :)

theorem filed_badRequest (ho : g.outer = h.outer) : Filed env h .badRequest g :=
  filed_of_not (by simp [SendsFile]) (congrArg HttpServer.pkt ho :)
    (Or.inl (congrArg mFilePtr ho :))

variable (env) in
theorem processReadLoop_filed (n : ℕ) : ∀ {h : HttpServer}, Sound h →
    Post (processReadLoop env n h) (fun _ => True) fun p => Filed env h p.1 p.2 := by
  refine processReadLoop_rule (R := fun h p => Filed env h p.1 p.2) (fun h => ?_)
    (fun hs ht => ?_) (fun {h k q} hs ht hr => ?_) (fun hs ht hq => ?_) n
  · exact filed_badRequest rfl
  · exact filed_badRequest ((readText_outer env hs).of_ok ht)
  · have hd : Post (doRequest env k) (fun _ => True) fun q => Filed env k q.1 q.2 :=
      doRequest_filed
    exact filed_of_outer ((readText_outer env hs).of_ok ht) (hd.of_ok hr)
  · exact filed_of_outer ((readText_outer env hs).of_ok ht) hq

variable (env) in
/-- **What `process_read` leaves in `m_file_ptr`.** -/
theorem processRead_filed (hs : Sound h) :
    Post (processRead env h) (fun _ => True) fun p => Filed env h p.1 p.2 :=
  processReadLoop_filed env _ hs

end HttpServer

end ServerNginx
