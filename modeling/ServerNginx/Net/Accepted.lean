import ServerNginx.Lib.Takes
import ServerNginx.Net.Response

set_option autoImplicit false

/-!
# What the socket accepts of a response

The bytes of a response are told apart by where they are stored: in the packet `_HandlePing` lays
out, or in `m_iov`. `Faithful resp log`: what the socket has accepted is a prefix of the response,
and all of it once the response is reported as sent.

* `iovBytes_nodup`: the bytes of `m_iov` are distinct;
* `Met`: what a run tells about the counts its writes returned;
* **`faithful_iff`**: a ping is answered faithfully as long as nothing is accepted; a response of
  `Business`, as long as one write at most accepts something, everything if it is taken for all.
-/

namespace ServerNginx

open Takes

theorem HttpServer.iovBytes_nodup (h : HttpServer) : h.iovBytes.Nodup := by
  refine List.nodup_flatMap.mpr ⟨fun i _ => ?_, ?_⟩
  · exact List.nodup_range.map fun a b hab => by cases hab; rfl
  · refine List.nodup_range.imp fun {a b} hab x ha hb => ?_
    obtain ⟨m, -, rfl⟩ := List.mem_map.mp ha
    obtain ⟨n, -, hn⟩ := List.mem_map.mp hb
    cases hn
    exact hab rfl

namespace Job

/-- The response a handler has prepared. -/
def response (p : Processing) : Handler → List RespByte
  | .handlePing => (List.range iLenPkgHeader).map RespByte.psendbuf
  | .handleBusiness => p.obj.iovBytes

/-- What the socket has accepted. -/
def accepted (log : List SendEv) : List RespByte :=
  log.flatMap fun
    | .accepted bytes => bytes
    | _ => []

/-- **Exactly once and in order.** -/
structure Faithful (resp : List RespByte) (log : List SendEv) : Prop where
  ofPrefix : accepted log <+: resp
  whole : SendEv.sent ∈ log → accepted log = resp

/-- The counts the writes of a run returned. -/
def counts (is : List JobStep) : List ℕ :=
  is.filterMap fun
    | .write (.ret k) => some k
    | _ => none

/-- The writes that serve a response: of a ping none accepts anything; of `Business` one at most
accepts something, and where one returns `isendlen`, they accept all of `m_iov`. -/
def Serves (p : Processing) (ks : List ℕ) : Handler → Prop
  | .handlePing => writes ks = 0
  | .handleBusiness =>
    writes ks ≤ 1 ∧ (p.conn.isendlen ∈ ks → ks.sum = p.obj.iovBytes.length)

instance (p : Processing) (ks : List ℕ) : ∀ h, Decidable (Serves p ks h)
  | .handlePing => inferInstanceAs (Decidable (_ = 0))
  | .handleBusiness => inferInstanceAs (Decidable (_ ∧ _))

/-! ## What a run tells -/

variable {j : Job} {p p' q : Processing} {i : JobStep} {is : List JobStep} {os log : List SendEv}

@[simp] theorem accepted_append (l o : List SendEv) :
    accepted (l ++ o) = accepted l ++ accepted o :=
  List.flatMap_append

@[simp] theorem counts_append (is js : List JobStep) : counts (is ++ js) = counts is ++ counts js :=
  List.filterMap_append

/-- `sendMsg` or `sendRemainMsg` is still to be called or in its loop. -/
structure Open (len : ℕ) (is : List JobStep) (os : List SendEv) (q : Processing) : Prop where
  sent : SendEv.sent ∉ os
  notMem : len ∈ counts is → 1 < writes (counts is)
  isendlen_le : q.conn.isendlen ≤ len
  isendlen : q.conn.isendlen = len ∨ 0 < writes (counts is)

/-- Where `sendMsg` stands in a run. -/
def State (len : ℕ) (is : List JobStep) (os : List SendEv) (q : Processing) : Prop :=
  match q.phase with
  | .prepared _ | .sending _ => SendEv.sent ∉ os ∧ len ∉ counts is ∧ q.conn.isendlen = len
  | .waiting => Open len is os q
  | .remaining => Open len is os q ∧ q.conn.isendlen ≠ 0
  | .done => (SendEv.sent ∈ os → len ∈ counts is ∨ 1 < writes (counts is)) ∧
    (len ∈ counts is → SendEv.sent ∈ os ∨ 1 < writes (counts is))
  | _ => False

/-- **What a run tells** about the counts its writes returned, from a response in `h` on that is
`len` bytes long by `isendlen`. -/
structure Met (h : HttpServer) (len : ℕ) (is : List JobStep) (os : List SendEv)
    (q : Processing) : Prop where
  obj : q.obj = h
  bytes : accepted os = takes h.iovBytes (counts is)
  state : State len is os q

theorem takes_counts (h : HttpServer) (r : WriteRet) :
    takes h.iovBytes (counts [.write r]) = h.writeData r := by
  cases r with
  | ret k => exact List.append_nil _
  | err e => rfl

theorem mem_counts_write {n : ℕ} {r : WriteRet} : n ∈ counts [.write r] ↔ r = .ret n := by
  cases r with
  | ret k => simp [counts, eq_comm]
  | err e => simp [counts]

theorem writes_ret {n : ℕ} (hn : n ≠ 0) : writes (counts [.write (.ret n)]) = 1 := by
  simp [counts, writes_cons, Nat.pos_of_ne_zero hn]

variable {len : ℕ} {k : Handler} {r : WriteRet} {o : List SendEv} {b : List RespByte}

theorem state_sending (hp : p.phase = .sending k) (h : State len is os p)
    {it : SendIter} (hit : sendMsgIter p.conn r = some it) (hs : j.sent p k it = some (q, o)) :
    q.obj = p.obj ∧ accepted o = [] ∧ State len (is ++ [.write r]) (os ++ .accepted b :: o) q := by
  simp only [State, hp] at h
  obtain ⟨hsent, hlen, hl⟩ := h
  obtain ⟨rfl, hobj, hph, hq, -⟩ := sent_cases hs
  have hcount : r ≠ .ret len → len ∉ counts (is ++ [.write r]) := fun hne => by
    rw [counts_append, List.mem_append, mem_counts_write, not_or]
    exact ⟨hlen, hne⟩
  rcases sendMsgIter_cases hit with ⟨-, -, hne, rfl⟩ | ⟨-, n, hn, rfl⟩ | ⟨rfl, c', hc', rfl⟩ |
    ⟨hgone, c', hc', rfl⟩
  · refine ⟨hobj, rfl, ?_⟩
    simp only [State, hph, sentPhase]
    exact ⟨by simpa using hsent, hcount (hl ▸ hne), hq.trans hl⟩
  · refine ⟨hobj, rfl, ?_⟩
    simp only [State, hph, sentPhase]
    replace hq : q.conn.isendlen = len - n := hl ▸ hq
    have hne : r ≠ .ret len := by
      rintro rfl
      rcases hn with ⟨he, hlt⟩ | ⟨he, -⟩
      · cases he
        omega
      · cases he
    refine ⟨by simpa using hsent, fun hmem => absurd hmem (hcount hne), by omega, ?_⟩
    rcases hn with ⟨rfl, -⟩ | ⟨-, rfl⟩
    · by_cases hn0 : n = 0
      · exact Or.inl (by omega)
      · refine Or.inr ?_
        rw [counts_append, writes_append, writes_ret hn0]
        omega
    · exact Or.inl (by omega)
  · refine ⟨hobj, rfl, ?_⟩
    simp only [State, hph, sentPhase]
    have hmem : len ∈ counts (is ++ [.write (.ret p.conn.isendlen)]) := by
      rw [counts_append, List.mem_append, mem_counts_write, hl]
      exact Or.inr rfl
    exact ⟨fun _ => Or.inl hmem, fun _ => Or.inl (by simp)⟩
  · refine ⟨hobj, rfl, ?_⟩
    simp only [State, hph, sentPhase]
    have hne : r ≠ .ret len := by
      rintro rfl
      cases hgone
    exact ⟨fun h => absurd h (by simpa using hsent), fun h => absurd h (hcount hne)⟩

theorem state_remaining (hp : p.phase = .remaining) (h : State len is os p)
    {it : SendIter} (hit : sendRemainIter p.conn r = some it) :
    (sentRemain p it).1.obj = p.obj ∧ accepted it.evs = [] ∧
      State len (is ++ [.write r]) (os ++ .accepted b :: it.evs) (sentRemain p it).1 := by
  simp only [State, hp] at h
  obtain ⟨⟨hsent, hnot, hle, hl⟩, hne⟩ := h
  rcases sendRemainIter_cases hit with ⟨n, hn, rfl⟩ | ⟨rfl, c', hc', rfl⟩ | ⟨hgone, c', hc', rfl⟩
  · have hlen : (p.conn.advance n).isendlen ≠ 0 := by
      simp only [SendSide.advance]
      omega
    have hnext : (p.conn.advance n).remainNext = .loop := if_pos hlen
    rw [hnext]
    refine ⟨rfl, rfl, ⟨by simpa using hsent, fun hmem => ?_, ?_, ?_⟩, hlen⟩
    · rw [counts_append, List.mem_append, mem_counts_write] at hmem
      rw [counts_append, writes_append]
      rcases hmem with hmem | rfl
      · have := hnot hmem
        omega
      · rcases hn with ⟨he, hlt⟩ | ⟨-, he, -⟩
        · cases he
          omega
        · have hcur : p.conn.isendlen ≠ len := fun h => he (by rw [h])
          rw [writes_ret (by omega)]
          have := hl.resolve_left hcur
          omega
    · simp only [sentRemain, SendSide.advance]
      omega
    · rw [counts_append, writes_append]
      rcases hl with hl | hl
      · by_cases hn0 : n = 0
        · exact Or.inl (by simp only [sentRemain, SendSide.advance]; omega)
        · obtain ⟨rfl, -⟩ := hn.resolve_right fun h => hn0 h.2.2
          rw [writes_ret hn0]
          exact Or.inr (by omega)
      · exact Or.inr (by omega)
  · refine ⟨rfl, rfl, fun _ => ?_, fun _ => Or.inl (by simp)⟩
    rw [counts_append, List.mem_append, mem_counts_write, writes_append, writes_ret hne]
    rcases hl with hl | hl
    · exact Or.inl (Or.inr (by rw [hl]))
    · exact Or.inr (by omega)
  · refine ⟨rfl, rfl, fun h => absurd h (by simpa using hsent), fun hmem => ?_⟩
    rw [counts_append, List.mem_append, mem_counts_write] at hmem
    rw [counts_append, writes_append]
    rcases hmem with hmem | rfl
    · have := hnot hmem
      exact Or.inr (by omega)
    · cases hgone

theorem state_run (h : State len is os p) (hs : j.run p = some (q, o)) :
    q.obj = p.obj ∧ accepted o = [] ∧ State len (is ++ [.run]) (os ++ o) q := by
  have hcounts : counts (is ++ [.run]) = counts is := by
    rw [counts_append]
    exact List.append_nil _
  unfold State at h
  split at h
  case h_1 k hp =>
    obtain ⟨hsent, hlen, hl⟩ := h
    obtain ⟨it, hit, hs⟩ := run_prepared_cases hp hs
    obtain ⟨rfl, hobj, hph, hq, -⟩ := sent_cases hs
    rcases sendMsg_cases hit with rfl | ⟨c', hc', rfl⟩
    · refine ⟨hobj, rfl, ?_⟩
      simp only [State, hph, sentPhase, hcounts, List.append_nil]
      exact ⟨hsent, hlen, hq.trans hl⟩
    · refine ⟨hobj, rfl, ?_⟩
      simp only [State, hph, sentPhase, hcounts]
      exact ⟨fun h => absurd h (by simpa using hsent), fun h => absurd h hlen⟩
  case h_2 k hp =>
    simp only [Job.run, hp] at hs
    cases hs
  case h_3 hp =>
    obtain ⟨hsent, hnot, hle, hl⟩ := h
    simp only [Job.run, hp] at hs
    obtain ⟨it, hit, hs⟩ := Option.map_eq_some_iff.mp hs
    have hdone : ∀ evs : List SendEv, SendEv.sent ∉ evs → ∀ c, State len (is ++ [.run]) (os ++ evs)
        { p with conn := c, phase := .done } := by
      intro evs hevs c
      simp only [State, hcounts]
      refine ⟨fun h => absurd h ?_, fun h => Or.inr (hnot h)⟩
      rw [List.mem_append, not_or]
      exact ⟨hsent, hevs⟩
    rcases (sendRemainMsg_cases hit).2 with rfl | ⟨c', hc', rfl⟩
    · by_cases hne : p.conn.isendlen ≠ 0
      · have hnext : p.conn.remainNext = .loop := if_pos hne
        simp only [sentRemain, hnext] at hs
        cases hs
        refine ⟨rfl, rfl, ?_⟩
        simp only [State, List.append_nil]
        exact ⟨⟨hsent, hcounts ▸ hnot, hle, hcounts ▸ hl⟩, hne⟩
      · have hnext : p.conn.remainNext = .ret := if_neg hne
        simp only [sentRemain, hnext] at hs
        cases hs
        exact ⟨rfl, rfl, hdone _ List.not_mem_nil _⟩
    · cases hs
      exact ⟨rfl, rfl, hdone _ (by simp) _⟩
  case h_4 hp | h_5 hp =>
    simp only [Job.run, hp] at hs
    cases hs
  case h_6 => exact h.elim

theorem Met.step {h : HttpServer} (hm : Met h len is os p) (hs : j.step p i = some (q, o)) :
    Met h len (is ++ [i]) (os ++ o) q := by
  cases i with
  | run =>
    obtain ⟨hobj, hacc, hst⟩ := state_run hm.state hs
    refine ⟨hobj.trans hm.obj, ?_, hst⟩
    rw [accepted_append, hacc, hm.bytes, counts_append, takes_append]
    rfl
  | write r =>
    replace hs : j.write p r = some (q, o) := hs
    have hwrite : ∀ q' o', q'.obj = p.obj ∧ accepted o' = [] ∧
        State len (is ++ [.write r]) (os ++ .accepted (p.obj.writeData r) :: o') q' →
        Met h len (is ++ [.write r]) (os ++ .accepted (p.obj.writeData r) :: o') q' := by
      rintro q' o' ⟨hobj, hacc, hst⟩
      refine ⟨hobj.trans hm.obj, ?_, hst⟩
      rw [accepted_append, hm.bytes, counts_append, takes_append, takes_counts, ← hm.obj]
      exact congrArg (_ ++ ·) ((congrArg (_ ++ ·) hacc).trans (List.append_nil _))
    rcases write_cases hs with ⟨k, it, o', hp, hit, hq, rfl⟩ | ⟨it, hp, hit, rfl, rfl⟩
    · exact hwrite _ _ (state_sending hp hm.state hit hq)
    · exact hwrite _ _ (state_remaining hp hm.state hit)
  | freeConnection =>
    cases hs
    have hcounts : counts (is ++ [.freeConnection]) = counts is := by
      rw [counts_append]
      exact List.append_nil _
    refine ⟨hm.obj, by rw [List.append_nil, hcounts]; exact hm.bytes, ?_⟩
    have hst := hm.state
    unfold State at hst ⊢
    rw [List.append_nil, hcounts]
    cases hp : p.phase <;> simp only [hp] at hst ⊢ <;> first | exact hst | skip
    · exact ⟨hst.1, hcounts.symm ▸ hst.2, hst.3, hcounts.symm ▸ hst.4⟩
    · exact ⟨⟨hst.1.1, hcounts.symm ▸ hst.1.2, hst.1.3, hcounts.symm ▸ hst.1.4⟩, hst.2⟩

/-! ## Exactly once and in order -/

/-- A response that goes out in one write at most is reported as sent exactly when a write returns
its length. -/
theorem Met.sent_iff {h : HttpServer} (hm : Met h len is os p) (hw : writes (counts is) ≤ 1) :
    SendEv.sent ∈ os ↔ len ∈ counts is := by
  have hst := hm.state
  have hopen : Open len is os p → (SendEv.sent ∈ os ↔ len ∈ counts is) := fun ho =>
    iff_of_false ho.sent fun hmem => by
      have := ho.notMem hmem
      omega
  unfold State at hst
  split at hst
  case h_1 | h_2 => exact iff_of_false hst.1 hst.2.1
  case h_3 => exact hopen hst
  case h_4 => exact hopen hst.1
  case h_5 =>
    exact ⟨fun hs => (hst.1 hs).resolve_right (by omega),
      fun hmem => (hst.2 hmem).resolve_right (by omega)⟩
  case h_6 => exact hst.elim

theorem prepare_phase (h : j.prepare p k = some q) : q.phase = .prepared k ∧
    (k = .handlePing → q.conn.isendlen = iLenPkgHeader) := by
  rcases prepare_cases h with ⟨rfl, n, -, -, rfl⟩ | ⟨rfl, reply, -, rfl⟩
  · exact ⟨rfl, fun _ => rfl⟩
  · exact ⟨rfl, fun h => by cases h⟩

theorem met_of_run (hp : j.prepare p k = some p') (hr : Run.run j.step p' is = some (q, os)) :
    Met p'.obj p'.conn.isendlen is os q := by
  have h₀ : Met p'.obj p'.conn.isendlen [] [] p' := by
    refine ⟨rfl, rfl, ?_⟩
    simp only [State, (prepare_phase hp).1]
    exact ⟨List.not_mem_nil, List.not_mem_nil, trivial⟩
  have hstep : ∀ is os s i s' o, Met p'.obj p'.conn.isendlen is os s → True →
      j.step s i = some (s', o) → Met p'.obj p'.conn.isendlen (is ++ [i]) (os ++ o) s' :=
    fun _ _ _ _ _ _ hm _ hs => hm.step hs
  exact Run.run_induct hstep h₀ (Run.guarded_true _ _) hr

/-- **What the socket accepts.** At any time of the processing of a prepared response it is a
prefix of the response, and all of it once it is reported as sent, exactly when the writes serve
the response. -/
theorem faithful_iff (hp : j.prepare p k = some p') (hr : Run.run j.step p' is = some (q, os))
    (hk : ∀ n ∈ counts is, n ≤ p'.obj.iovBytes.length) :
    Faithful (response p' k) os ↔ Serves p' (counts is) k := by
  have hm := met_of_run hp hr
  have hnd := p'.obj.iovBytes_nodup
  cases k with
  | handleBusiness =>
    constructor
    · rintro ⟨hpre, hwhole⟩
      rw [hm.bytes] at hpre hwhole
      have hw := (takes_prefix_iff hnd hk).mp hpre
      exact ⟨hw, fun hmem => ((takes_eq_iff hnd hk).mp (hwhole ((hm.sent_iff hw).mpr hmem))).2⟩
    · rintro ⟨hw, hsum⟩
      refine ⟨?_, fun hs => ?_⟩
      · rw [hm.bytes]
        exact (takes_prefix_iff hnd hk).mpr hw
      · rw [hm.bytes]
        exact (takes_eq_iff hnd hk).mpr ⟨hw, hsum ((hm.sent_iff hw).mp hs)⟩
  | handlePing =>
    constructor
    · rintro ⟨hpre, -⟩
      by_contra hw
      rw [hm.bytes] at hpre
      have hne : p'.obj.iovBytes ≠ [] := by
        intro hnil
        refine hw (writes_eq_zero_iff.mpr fun n hn => ?_)
        have := hk n hn
        rw [hnil] at this
        exact Nat.le_zero.mp this
      obtain ⟨a, l, hal⟩ := List.exists_cons_of_ne_nil hne
      -- the first byte of `m_iov` is none of the packet
      have hmem : a ∈ takes p'.obj.iovBytes (counts is) := hal ▸ head_mem_takes hw
      obtain ⟨m, -, rfl⟩ := List.mem_map.mp (hpre.subset hmem)
      have hiov : RespByte.psendbuf m ∈ p'.obj.iovBytes := hal ▸ List.mem_cons_self
      obtain ⟨i, -, hi⟩ := List.mem_flatMap.mp hiov
      obtain ⟨n, -, hn⟩ := List.mem_map.mp hi
      cases hn
    · intro hw
      replace hw : writes (counts is) = 0 := hw
      refine ⟨?_, fun hs => ?_⟩
      · rw [hm.bytes, takes_eq_nil hw]
        exact List.nil_prefix
      · have hmem := (hm.sent_iff (by omega)).mp hs
        rw [(prepare_phase hp).2 rfl] at hmem
        exact absurd (writes_eq_zero_iff.mp hw _ hmem) (by decide)

/-! ## A request and a ping behind it -/

/-- A connection with `pkg` in block 0 that serves `obj`, and the handler called. -/
def lockedOn (obj : HttpServer) (h : Handler) : Processing where
  conn := ⟨0, false, none, none, 0, true, .readEvent, fun a => if a = 0 then some 0 else none⟩
  obj := obj
  phase := .locked h

/-- A request that is no request line. -/
def badRequestJob : Job :=
  ⟨.noFiles, .etClose, [10, 0, 1, 0, 0, 0, 0, 0] ++ CString.ascii "x\n", 0, 1, false⟩

/-- A ping. -/
def pingJob : Job := ⟨.noFiles, .etClose, [8, 0, 0, 0, 0, 0, 0, 0], 0, 1, false⟩

/-- The response to the bad request goes out in one write of 124 bytes. -/
theorem faithful_badRequest : ∃ p q os,
    badRequestJob.prepare (lockedOn (.new .zero) .handleBusiness) .handleBusiness = some p ∧
    Run.run badRequestJob.step p [.run, .write (.err .eintr), .write (.ret 124)] = some (q, os) ∧
    SendEv.sent ∈ os ∧ Faithful (response p .handleBusiness) os := by
  have hcheck : ((badRequestJob.prepare (lockedOn (.new .zero) .handleBusiness)
      .handleBusiness).any fun p =>
        (Run.run badRequestJob.step p [.run, .write (.err .eintr), .write (.ret 124)]).any fun r =>
          decide (SendEv.sent ∈ r.2 ∧ 124 = p.obj.iovBytes.length ∧
            Serves p [124] .handleBusiness)) = true := by decide +kernel
  obtain ⟨p, hp, hcheck⟩ := Run.exists_of_any hcheck
  obtain ⟨⟨q, os⟩, hr, hcheck⟩ := Run.exists_of_any hcheck
  obtain ⟨hsent, hlen, hserves⟩ := of_decide_eq_true hcheck
  refine ⟨p, q, os, hp, hr, hsent, (faithful_iff hp hr fun n hn => ?_).mpr hserves⟩
  cases List.mem_singleton.mp hn
  exact hlen.le

/-- A ping behind it: its eight bytes are those of the packet header of the bad request's
response. -/
theorem not_faithful : ¬ ∀ (j : Job) (p p' q : Processing) (k : Handler) (is : List JobStep)
    (os : List SendEv), j.prepare p k = some p' → Run.run j.step p' is = some (q, os) →
      (∀ n ∈ counts is, n ≤ p'.obj.iovBytes.length) → Faithful (response p' k) os := by
  intro h
  have hcheck : ((badRequestJob.prepare (lockedOn (.new .zero) .handleBusiness)
      .handleBusiness).any fun p => (pingJob.prepare (lockedOn p.obj .handlePing) .handlePing).any
        fun p' => (Run.run pingJob.step p' [.run, .write (.ret 8)]).any fun r =>
          decide (8 ≤ p'.obj.iovBytes.length ∧
            ¬ accepted r.2 <+: response p' .handlePing)) = true := by decide +kernel
  obtain ⟨p, -, hcheck⟩ := Run.exists_of_any hcheck
  obtain ⟨p', hp, hcheck⟩ := Run.exists_of_any hcheck
  obtain ⟨⟨q, os⟩, hr, hcheck⟩ := Run.exists_of_any hcheck
  obtain ⟨hlen, hnot⟩ := of_decide_eq_true hcheck
  refine hnot (h _ _ _ _ _ _ _ hp hr fun n hn => ?_).ofPrefix
  cases List.mem_singleton.mp hn
  exact hlen

end Job

end ServerNginx
