import ServerNginx.Http.Announced
import ServerNginx.Http.History
import ServerNginx.Http.WellFormed
import ServerNginx.Net.Comm

set_option autoImplicit false

/-!
# What a request is answered with

`Asked.text` is the text of the response to the first packet of a connection, as a function of what
the packet asks for and of the file its URL names: a head and the file, or a part of it, or an error
page. `packet hdr text` is the packet of a text.

* `handed_named`: the file that is mapped is the one the URL names;
* `processWrite_text`: the segments behind the packet header hold the text;
* `outcome_wellFormed`: the text is a message;
* **`business_packet`**: `Business` sends the packet of the text, and announces its length.
-/

namespace ServerNginx

open CString CNumber

/-- The page that explains a code. -/
def errorPage : HttpCode → Option ErrorPage
  | .badRequest => some error400
  | .internalError => some error500
  | .noResource => some error404
  | .forbiddenRequest => some error403
  | _ => none

/-- An error and its explanation. -/
def ErrorPage.text (page : ErrorPage) : List UInt8 :=
  headText page.status page.title page.headers ++ page.form

/-- The text of the response to a request that has found the bytes `file`. -/
def Asked.text (env : Env) (a : Asked) (file : List UInt8) (code : HttpCode) : List UInt8 :=
  match a.method, code with
  | .get, .fileRequest => headText 200 (ascii "OK") (a.wholeLines env) ++ file
  | .get, .partialContent => headText 206 (ascii "Partial Content") (a.partLines env) ++
      (file.drop a.rangeStart.toNat).take a.rangeLength.toNat
  | .get, code => ((errorPage code).map ErrorPage.text).getD []
  | .head, _ => headText 200 (ascii "OK") (a.headLines env)
  | .options, _ => headText 200 (ascii "OK") [dateLine env, allowLine]
  | _, _ => []

/-- The bytes of the file the URL of a request names. -/
def named (env : Env) (body : List UInt8) : List UInt8 :=
  match reading body with
  | .request _ url => (env.mmap (localFileAddr ++ url)).getD []
  | _ => []

/-- The packet of a text, with the code and the checksum of the packet header `hdr`. -/
def packet (hdr text : List UInt8) : List UInt8 :=
  [(text.length + 8).toUInt8, ((text.length + 8) / 256).toUInt8] ++ hdr.drop 2 ++ text

/-! ## Packets -/

section packet

variable {hdr text : List UInt8}

theorem length_packet (hlen : hdr.length = iLenPkgHeader) :
    (packet hdr text).length = text.length + 8 := by
  simp only [packet, List.length_append, List.length_cons, List.length_nil, List.length_drop, hlen,
    iLenPkgHeader]
  omega

theorem le16_toUInt8 {n : ℕ} (hn : n < 2 ^ 16) : le16 n.toUInt8 (n / 256).toUInt8 = n := by
  have hlo : n.toUInt8.toNat = n % 256 := rfl
  have hhi : (n / 256).toUInt8.toNat = n / 256 % 256 := rfl
  rw [le16, hlo, hhi]
  omega

/-- **A packet says how long it is**, if it has fewer than `2 ^ 16` bytes. -/
theorem pkgLen_packet (hlen : hdr.length = iLenPkgHeader) (hn : text.length + 8 < 2 ^ 16) :
    pkgLen (packet hdr text) = (packet hdr text).length := by
  rw [length_packet hlen]
  exact le16_toUInt8 hn

theorem msgCode_packet (hlen : hdr.length = iLenPkgHeader) :
    msgCode (packet hdr text) = msgCode hdr := by
  match hdr, hlen with
  | [_, _, _, _, _, _, _, _], _ => rfl

theorem drop_packet (hlen : hdr.length = iLenPkgHeader) :
    (packet hdr text).drop iLenPkgHeader = text := by
  match hdr, hlen with
  | [_, _, _, _, _, _, _, _], _ => rfl

end packet

namespace HttpServer

variable {env : Env} {u : Uninit} {h g : HttpServer} {code : HttpCode} {path body : List UInt8}

/-! ## The file -/

theorem openFile_maps (hc : (openFile env h path).1 ≠ .internalError) : ∃ content,
    env.mmap path = some content ∧ (openFile env h path).2.mFilePtr = .mapped h.pkt content := by
  unfold openFile at hc ⊢
  split at hc
  case isTrue => exact absurd rfl hc
  case isFalse hopen =>
    rw [if_neg hopen]
    cases hmap : if h.mStat.stSize = 0 then none else env.mmap path with
    | none =>
      rw [hmap] at hc
      exact absurd rfl hc
    | some content =>
      have hcontent : env.mmap path = some content := by
        split_ifs at hmap
        exact hmap
      refine ⟨content, hcontent, ?_⟩
      dsimp only
      split_ifs <;> rfl

theorem statFile_maps (hc : (statFile env h path).1 = .partialContent ∨
    (statFile env h path).1 = .fileRequest) : ∃ id content,
    env.mmap path = some content ∧ (statFile env h path).2.mFilePtr = .mapped id content := by
  have hopened : ∀ k : HttpServer, (openFile env k path).1 = .partialContent ∨
      (openFile env k path).1 = .fileRequest → ∃ id content, env.mmap path = some content ∧
        (openFile env k path).2.mFilePtr = .mapped id content := by
    intro k hk
    have hne : (openFile env k path).1 ≠ .internalError := by
      rcases hk with hk | hk <;> rw [hk] <;> decide
    exact ⟨_, openFile_maps hne⟩
  unfold statFile at hc ⊢
  cases hst : env.stat path with
  | none =>
    rw [hst] at hc
    simp at hc
  | some st =>
    rw [hst] at hc
    dsimp only at hc ⊢
    split_ifs at hc ⊢
    · simp at hc
    · simp at hc
    · exact hopened _ hc
    · simp at hc
    · simp at hc
    · exact hopened _ hc

/-- **The file behind a response** is the one the URL names. -/
theorem handed_named (hroom : body.length < 2 ^ 16)
    (hread : processRead env ((new u).receive body) = .ok (code, h)) (hs : SendsFile h code) :
    ∃ id, h.mFilePtr = .mapped id (named env body) := by
  have hd := processRead_ends env u hroom
  unfold named
  cases hr : reading body with
  | fault =>
    rw [hr] at hd
    obtain ⟨e, he⟩ := hd
    rw [hread] at he
    cases he
  | bad =>
    rw [hr] at hd
    obtain ⟨g, hg, -⟩ := hd
    rw [hread] at hg
    cases hg
    simp [SendsFile] at hs
  | request m url =>
    rw [hr] at hd
    obtain ⟨g, hg, hm, hu, ho, -⟩ := hd
    have hf : g.mFilename = .fill filenameLen 0 := (congrArg mFilename ho :)
    rw [hread] at hg
    by_cases hopt : m = .options
    · rw [doRequest, if_pos (hm.trans hopt)] at hg
      cases hg
      simp [SendsFile, hm.trans hopt] at hs
    · have hne : g.mMethod ≠ .options := fun h => hopt (hm.symm.trans h)
      rcases Nat.lt_or_ge url.length 190 with hfit | hlong
      · obtain ⟨b, -, hdo⟩ := doRequest_of_fits env hne hu hf hfit
        have he := Except.ok.inj (hg.trans hdo)
        have hcode : code = _ := congrArg Prod.fst he
        have hobj : h = _ := congrArg Prod.snd he
        obtain ⟨id, content, hmap, hptr⟩ := @statFile_maps env { g with mFilename := b }
          (localFileAddr ++ url) (hcode ▸ hs.imp_right And.left)
        refine ⟨id, ?_⟩
        dsimp only
        rw [hobj, hptr, hmap, Option.getD_some]
      · rw [doRequest_of_long env hne hu hf hlong] at hg
        cases hg

/-- What `process_read` hands to `process_write`, with the file the URL names. -/
structure Finds (env : Env) (u : Uninit) (body : List UInt8) (code : HttpCode)
    (h : HttpServer) : Prop where
  handed : Handed env u body code h
  file : SendsFile h code → ∃ id, h.mFilePtr = .mapped id (named env body)
  size : SendsFile h code → ((named env body).length : ℤ) = h.mStat.stSize

theorem finds (hs : env.Sizes) (hroom : body.length < 2 ^ 16)
    (hread : processRead env ((new u).receive body) = .ok (code, h)) :
    Finds env u body code h := by
  have hh := handed hroom hread
  refine ⟨hh, handed_named hroom hread, fun hsends => ?_⟩
  obtain ⟨path, content, hptr, hst, hmap⟩ := hh.opened hsends
  obtain ⟨id, hnamed⟩ := handed_named hroom hread hsends
  rw [hptr] at hnamed
  cases hnamed
  exact hs path _ _ hst hmap

/-! ## The text -/

theorem Finds.whole_length (hf : Finds env u body .fileRequest h) (hm : h.mMethod = .get)
    (hsized : h.asked.Sized env .fileRequest) :
    h.mContentLength = (named env body).length := by
  have hget : h.asked.method = .get := hm
  have hsize := hf.size (Or.inr ⟨rfl, by rw [hm]; decide⟩)
  have hcl : h.mContentLength = int32 h.mStat.stSize :=
    hf.handed.consistent.2.2 rfl (by rw [hget]; decide)
  unfold Asked.Sized at hsized
  rw [hget] at hsized
  obtain ⟨hnonneg, hlt⟩ := hsized
  rw [hcl, hsize, int32_of_lt] <;> simp only [asked_stat] at hnonneg hlt <;> omega

theorem Finds.part_length (hf : Finds env u body .partialContent h) (hm : h.mMethod = .get)
    (hframed : h.asked.Framed env .partialContent) :
    0 ≤ h.mRangeStart ∧ 0 ≤ h.asked.rangeLength ∧
      h.mRangeStart + h.asked.rangeLength ≤ (named env body).length := by
  have hget : h.asked.method = .get := hm
  have hsize := hf.size (Or.inl rfl)
  have hfits := (hf.handed.consistent.2.1 rfl).1
  have hpiece := hframed.2
  rw [hget] at hpiece
  unfold Asked.RangeFits at hfits
  simp only [asked_rangeStart, asked_stat] at hfits hpiece
  omega

theorem sent_errorResponse (hf : Finds env u body code h) {page : ErrorPage}
    (hg : h.errorResponse page = .ok g) : g.sent = some page.text := by
  rw [(errorResponse_puts h page).of_ok hg]
  exact sent_iovHead hf.handed.buffer hf.handed.iov

/-- **The text of a GET.** -/
theorem getFunc_text (hf : Finds env u body code h) (hm : h.mMethod = .get)
    (hframed : h.asked.Framed env code) (hsized : h.asked.Sized env code)
    (hg : h.getFunc env code = .ok g) :
    g.sent = some (h.asked.text env (named env body) code) := by
  have hh := hf.handed
  have hget : h.asked.method = .get := hm
  have hpiece := hframed.2
  rw [hget] at hpiece
  unfold Asked.text
  rw [hget]
  cases code with
  | fileRequest =>
    obtain ⟨id, hptr⟩ := hf.file (Or.inr ⟨rfl, by rw [hm]; decide⟩)
    have hlen := hf.whole_length hm hsized
    have hint := hh.consistent.1.length
    rw [(getFunc_whole env h).of_ok hg]
    refine (sent_iovBody (h := h.withRange _) hh.buffer hh.iov hptr le_rfl hpiece ?_
      hint.2).trans ?_
    · rw [asked_contentLength, hlen]
      omega
    · simp [hlen]
  | partialContent =>
    obtain ⟨id, hptr⟩ := hf.file (Or.inl rfl)
    obtain ⟨hstart, hlen, hfit⟩ := hf.part_length hm hframed
    have hint : h.asked.rangeLength < 2 ^ 31 := (int32_bounds _).2
    rw [(getFunc_part env (hh.consistent.2.1 rfl).1).of_ok hg,
      sent_iovBody hh.buffer hh.iov hptr hstart hlen hfit hint]
    rfl
  | badRequest => exact sent_errorResponse hf hg
  | internalError => exact sent_errorResponse hf hg
  | noResource => exact sent_errorResponse hf hg
  | forbiddenRequest => exact sent_errorResponse hf hg
  | notModified => exact hpiece.elim
  | preconditionFailed => exact hh.final.elim
  | noRequest => exact hh.final.elim
  | getRequest => exact hh.final.elim
  | closedConnection => exact hh.final.elim
  | responseSuccessful => exact hh.final.elim

/-- **The segments behind the packet header** hold the text. -/
theorem processWrite_text (hf : Finds env u body code h) (hframed : h.asked.Framed env code)
    (hsized : h.asked.Sized env code) (hg : h.processWrite env code = .ok g) :
    g.sent = some (h.asked.text env (named env body) code) := by
  have hh := hf.handed
  have hmethod := hh.consistent.1.method
  have hpiece := hframed.2
  simp only [methods, List.mem_cons, List.not_mem_nil, or_false] at hmethod
  rcases hmethod with hget | hpost | hhead | hopt
  · have hm : h.mMethod = .get := hget
    rw [processWrite, hm] at hg
    exact getFunc_text hf hm hframed hsized hg
  · rw [hpost] at hpiece
    exact hpiece.elim
  · have hm : h.mMethod = .head := hhead
    rw [processWrite, hm] at hg
    rw [(headFunc_puts env h).of_ok hg, sent_iovHead hh.buffer hh.iov]
    unfold Asked.text
    rw [hhead]
  · have hm : h.mMethod = .options := hopt
    rw [processWrite, hm] at hg
    rw [(optionsFunc_puts env h).of_ok hg, sent_iovHead hh.buffer hh.iov]
    unfold Asked.text
    rw [hopt]

/-- **The text is a message**; that of HEAD has no body. -/
theorem text_wellFormed (ht : env.PlainTimes) (hf : Finds env u body code h)
    (hframed : h.asked.Framed env code) (hsized : h.asked.Sized env code) :
    let text := h.asked.text env (named env body) code
    if h.asked.method = .head then HeadOnly text else WellFormed text := by
  have hh := hf.handed
  have hmethod := hh.consistent.1.method
  have hpiece := hframed.2
  simp only [methods, List.mem_cons, List.not_mem_nil, or_false] at hmethod
  unfold Asked.text
  rcases hmethod with hget | hpost | hhead | hopt
  · have hm : h.mMethod = .get := hget
    rw [hget] at hpiece ⊢
    rw [if_neg (by decide)]
    cases code with
    | fileRequest => exact Asked.wellFormed_whole ht (hf.whole_length hm hsized)
    | partialContent =>
      obtain ⟨hstart, hlen, hfit⟩ := hf.part_length hm hframed
      refine Asked.wellFormed_part ht ?_
      rw [List.length_take, List.length_drop, asked_rangeStart]
      omega
    | badRequest => exact wellFormed_errorPage (by decide) (by decide)
    | internalError => exact wellFormed_errorPage (by decide) (by decide)
    | noResource => exact wellFormed_errorPage (by decide) (by decide)
    | forbiddenRequest => exact wellFormed_errorPage (by decide) (by decide)
    | notModified => exact hpiece.elim
    | preconditionFailed => exact hh.final.elim
    | noRequest => exact hh.final.elim
    | getRequest => exact hh.final.elim
    | closedConnection => exact hh.final.elim
    | responseSuccessful => exact hh.final.elim
  · rw [hpost] at hpiece
    exact hpiece.elim
  · rw [hhead, if_pos rfl]
    exact Asked.headOnly_head ht
  · rw [hopt, if_neg (by decide)]
    exact Asked.wellFormed_options ht

theorem outcome_wellFormed {a : Asked} (ht : env.PlainTimes) (hs : env.Sizes)
    (hroom : body.length < 2 ^ 16) (ho : outcome env u body = some (code, a))
    (hframed : a.Framed env code) (hsized : a.Sized env code) :
    let text := a.text env (named env body) code
    if a.method = .head then HeadOnly text else WellFormed text := by
  have hout := processRead_outcome env u hroom
  rw [ho] at hout
  obtain ⟨h, hread, rfl, -⟩ := hout
  exact text_wellFormed ht (finds hs hroom hread) hframed hsized

/-! ## The packet -/

theorem length_segment {v : Iovec} {bytes : List UInt8} (hb : h.segment v = some bytes) :
    bytes.length = v.iovLen := by
  unfold segment at hb
  split at hb
  case h_1 | h_5 => cases hb
  case h_2 | h_3 | h_4 =>
    split_ifs at hb
    cases hb
    simp
    omega

theorem mapM_eq_some {α β : Type} {f : α → Option β} {xs : List α} : ∀ {ys : List β},
    xs.mapM f = some ys → xs.map f = ys.map some := by
  induction xs with
  | nil =>
    intro ys hys
    cases hys
    rfl
  | cons x xs ih =>
    intro ys hys
    rw [List.mapM_cons] at hys
    obtain ⟨y, hy, hys⟩ := Option.bind_eq_some_iff.mp hys
    obtain ⟨zs, hzs, hys⟩ := Option.bind_eq_some_iff.mp hys
    cases hys
    rw [List.map_cons, List.map_cons, hy, ih hzs]

theorem length_segments {vs : List Iovec} : ∀ {segs : List (List UInt8)},
    vs.map h.segment = segs.map some → segs.flatten.length = (vs.map Iovec.iovLen).sum := by
  induction vs with
  | nil =>
    intro segs hs
    rw [List.map_eq_nil_iff.mp hs.symm]
    rfl
  | cons v vs ih =>
    intro segs hs
    cases segs with
    | nil => cases hs
    | cons seg segs =>
      obtain ⟨hv, hvs⟩ := List.cons_eq_cons.mp hs
      rw [List.flatten_cons, List.length_append, ih hvs, length_segment hv, List.map_cons,
        List.sum_cons]

/-- What `Business` sends: bytes that all exist, as many as it says. -/
structure Sends (r : Reply) (bytes : List UInt8) : Prop where
  segments : ∃ segs : List (List UInt8), r.response.segments = segs.map some ∧ segs.flatten = bytes
  pkgLen : r.pkgLen = bytes.length

/-- `m_iov[0]` is set to `header`. -/
def withHeader (g : HttpServer) (header : List UInt8) : HttpServer :=
  { g with mIov := g.mIov.set 0 ⟨.pkgHeader header, 8⟩ }

theorem reply_of_written (hdr : List UInt8) {len : ℕ} (hg : h.processWrite env code = .ok g)
    (hl : g.writeLen = .ok len) : ∃ r, reply env hdr code h = .ok r ∧ r.pkgLen < 2 ^ 16 ∧
      r.obj = g.withHeader ([r.pkgLen.toUInt8, (r.pkgLen / 256).toUInt8] ++ hdr.drop 2) := by
  simp only [reply, hg, hl, bind, Except.bind]
  refine ⟨_, rfl, ?_, rfl⟩
  dsimp only
  omega

theorem segments_of_sent {header t : List UInt8} (hsent : g.sent = some t)
    (hlen : header.length = iLenPkgHeader) (hcount : 1 ≤ g.mIovCount) (hiov : g.mIov ≠ []) :
    let k := g.withHeader header
    ∃ segs : List (List UInt8), (k.mIov.take k.mIovCount).map k.segment = segs.map some ∧
      segs.flatten = header ++ t := by
  intro k
  obtain ⟨segs, hsegs, rfl⟩ := Option.map_eq_some_iff.mp hsent
  obtain ⟨v, vs, hv⟩ := List.exists_cons_of_ne_nil hiov
  obtain ⟨n, hn⟩ := Nat.exists_eq_add_of_le' hcount
  have htake : k.mIov.take k.mIovCount = ⟨.pkgHeader header, 8⟩ :: vs.take n := by
    simp only [k, withHeader, hv, hn, List.set_cons_zero, List.take_succ_cons]
  rw [hv, hn, List.take_succ_cons, List.drop_one, List.tail_cons] at hsegs
  have hheader : k.segment ⟨.pkgHeader header, 8⟩ = some header := by
    have h8 : 8 = header.length := hlen.symm
    change (if 8 ≤ header.length then some (header.take 8) else none) = some header
    rw [if_pos h8.le, h8, List.take_length]
  refine ⟨header :: segs, ?_, List.flatten_cons⟩
  rw [htake, List.map_cons, List.map_cons, hheader]
  exact congrArg _ (mapM_eq_some hsegs)

theorem final_of_fresh (hf : FinalFresh code) : Final code := by
  cases code <;> trivial

/-- **`Business` sends the packet of the text**, and announces its length. -/
theorem business_packet {hdr : List UInt8} {a : Asked} (hs : env.Sizes)
    (hlen : hdr.length = iLenPkgHeader) (hroom : body.length < 2 ^ 16)
    (ho : outcome env u body = some (code, a)) (hframed : a.Framed env code)
    (hsized : a.Sized env code) : ∃ r, (new u).business env hdr body = .ok r ∧
      Sends r (packet hdr (a.text env (named env body) code)) ∧
      (a.text env (named env body) code).length + 8 < 2 ^ 16 := by
  have hout := processRead_outcome env u hroom
  rw [ho] at hout
  obtain ⟨h, hread, rfl, hw⟩ := hout
  have hf := finds hs hroom hread
  have hh := hf.handed
  obtain ⟨g, hg, -, hwlen⟩ :=
    (processWrite_fits_iff env hh.consistent ⟨rfl, rfl⟩ hh.iov hh.buffer).mpr hframed.1
  have hpost : h.mMethod ≠ .post := by
    intro hm
    have hpiece := hframed.2
    rw [show h.asked.method = .post from hm] at hpiece
    exact hpiece.elim
  have hans := ((processWrite_post code).of_ok hg).2.2 hpost (final_of_fresh hh.final)
  have hiov : g.mIov ≠ [] := by
    intro hnil
    have := hans.iovLength
    rw [hnil, hh.iov] at this
    cases this
  obtain ⟨r, hreply, hlt, hobj⟩ := reply_of_written hdr hg hwlen
  have hann := (announces_iff_sized hh.consistent ⟨rfl, rfl⟩ hh.iov hh.buffer hw.count
    hreply).mpr hsized
  have hheader : ([r.pkgLen.toUInt8, (r.pkgLen / 256).toUInt8] ++ hdr.drop 2).length =
      iLenPkgHeader := by simp [hlen, iLenPkgHeader]
  have hcount : 1 ≤ g.mIovCount := le_trans (by decide) hans.count
  obtain ⟨segs, hsegs, hflat⟩ :=
    segments_of_sent (processWrite_text hf hframed hsized hg) hheader hcount hiov
  rw [← hobj] at hsegs
  have htotal : segs.flatten.length = r.pkgLen := (length_segments hsegs).trans hann.total.symm
  have hn : r.pkgLen = (h.asked.text env (named env body) code).length + 8 := by
    rw [← htotal, hflat, List.length_append, hheader, Nat.add_comm]
    rfl
  have hpacket : segs.flatten = packet hdr (h.asked.text env (named env body) code) := by
    rw [hflat, hn]
    rfl
  refine ⟨r, ?_, ⟨⟨segs, hsegs, hpacket⟩, by rw [← hpacket, htotal]⟩, hn ▸ hlt⟩
  unfold business
  rw [hread]
  exact hreply

end HttpServer

end ServerNginx
