import ServerNginx.Http.Iterate
import ServerNginx.Lib.Run

set_option autoImplicit false

/-!
# Cursors over a run of packets

One object processes packet after packet: `packet` points it at a body, `iterate` is one iteration
of `process_read` and `respond` the rest of `Business`.

* **`staysInBody_iff`**: no step of a run leaves a body exactly where all its iterations start on
  an object that is `InBody`;
* `business_run`: `Business` is such a run.
-/

namespace ServerNginx

open CString Run

namespace HttpServer

variable {env : Env} {h : HttpServer}

/-- Where the processing of packets is. -/
inductive Phase
  /-- between two packets -/
  | idle
  /-- in the loop of `process_read` -/
  | reading
  /-- behind it, with the code it returned -/
  | responding (code : HttpCode)
  /-- a fault has ended the process -/
  | dead (e : Fault)
  deriving DecidableEq

/-- An object that processes packets. -/
structure Server where
  obj : HttpServer
  phase : Phase

/-- The steps of `Business`, with the world each of them sees. -/
inductive Act
  | packet (body : List UInt8)
  | iterate (env : Env)
  | respond (env : Env) (pkgHeader : List UInt8)

/-- One step; its output is the reply to a packet. -/
def step (s : Server) : Act → Option (Server × List Reply)
  | .packet body =>
    if s.phase = .idle then some (⟨s.obj.receive body, .reading⟩, []) else none
  | .iterate env =>
    if s.phase = .reading then
      match processReadIter env s.obj with
      | .error e => some (⟨s.obj, .dead e⟩, [])
      | .ok (none, h) => some (⟨h, .reading⟩, [])
      | .ok (some code, h) => some (⟨h, .responding code⟩, [])
    else none
  | .respond env pkgHeader =>
    match s.phase with
    | .responding code =>
      match reply env pkgHeader code s.obj with
      | .error e => some (⟨s.obj, .dead e⟩, [])
      | .ok r => some (⟨r.obj, .idle⟩, [r])
    | _ => none

/-- No access has left a body. -/
def Inside (s : Server) : Prop := s.phase ≠ .dead .readBuffer

/-- A step that can be taken; a body is shorter than `2 ^ 16`, as its length is a `short`. -/
def Act.Valid (s : Server) (i : Act) : Prop :=
  Defined step s i ∧ ∀ body, i = .packet body → body.length < 2 ^ 16

/-- An iteration starts on an object that is `InBody`. -/
def Act.InBody (s : Server) (i : Act) : Prop := ∀ env, i = .iterate env → s.obj.InBody

instance (s : Server) : Decidable (Inside s) := by
  unfold Inside
  infer_instance

instance (s : Server) (i : Act) : Decidable (i.Valid s) :=
  match i with
  | .packet body => decidable_of_iff (Defined step s (.packet body) ∧ body.length < 2 ^ 16)
      (and_congr_right fun _ => ⟨fun h _ hb => by cases hb; exact h, fun h => h body rfl⟩)
  | .iterate env => decidable_of_iff (Defined step s (.iterate env))
      (and_iff_left nofun).symm
  | .respond env pkgHeader => decidable_of_iff (Defined step s (.respond env pkgHeader))
      (and_iff_left nofun).symm

instance (s : Server) (i : Act) : Decidable (i.InBody s) :=
  match i with
  | .packet _ => isTrue nofun
  | .iterate env => decidable_of_iff s.obj.InBody ⟨fun h _ _ => h, fun h => h env rfl⟩
  | .respond _ _ => isTrue nofun

theorem sound_new (u : Uninit) : Sound (new u) :=
  ⟨rfl, Nat.two_pow_pos 16, le_rfl, by simp [new]⟩

/-- **What a step does.** -/
theorem step_inside (s : Server) (i : Act) (hs : Sound s.obj) (hv : i.Valid s) :
    ∃ t o, step s i = some (t, o) ∧ (Inside t ↔ i.InBody s) ∧ Sound t.obj := by
  obtain ⟨hd, hbody⟩ := hv
  cases i with
  | packet body =>
    by_cases hph : s.phase = .idle
    · exact ⟨_, _, if_pos hph, iff_of_true nofun nofun, hs.receive (hbody body rfl)⟩
    · simp [Defined, step, hph] at hd
  | iterate env =>
    by_cases hph : s.phase = .reading
    · have hiff : Act.InBody s (.iterate env) ↔ s.obj.InBody :=
        ⟨fun h => h env rfl, fun h _ _ => h⟩
      simp only [hiff, step, if_pos hph]
      by_cases hb : s.obj.InBody
      · have hp := (processReadIter_post env hs).1 hb
        cases hr : processReadIter env s.obj with
        | error e =>
          have he := hp.of_error hr
          exact ⟨_, _, rfl, iff_of_true (fun h => he (Phase.dead.inj h)) hb, hs⟩
        | ok p =>
          obtain ⟨code, g⟩ := p
          have hg := hp.of_ok hr
          cases code <;> exact ⟨_, _, rfl, iff_of_true nofun hb, hg.1⟩
      · rw [(processReadIter_post env hs).2 hb]
        exact ⟨_, _, rfl, iff_of_false (fun h => h rfl) hb, hs⟩
    · simp [Defined, step, hph] at hd
  | respond env pkgHeader =>
    cases hph : s.phase with
    | responding code =>
      simp only [step, hph]
      have hp := reply_post env pkgHeader code hs
      cases hr : reply env pkgHeader code s.obj with
      | error e =>
        have he := hp.of_error hr
        exact ⟨_, _, rfl, iff_of_true (fun h => he (Phase.dead.inj h)) nofun, hs⟩
      | ok r => exact ⟨_, _, rfl, iff_of_true nofun nofun, hp.of_ok hr⟩
    | idle => simp [Defined, step, hph] at hd
    | reading => simp [Defined, step, hph] at hd
    | dead e => simp [Defined, step, hph] at hd

variable (env) in
theorem processReadLoop_run (n : ℕ) : ∀ {h : HttpServer}, Sound h →
    h.mReadIdx - h.mCheckIdx < n →
    match processReadLoop env n h with
    | .ok (code, g) => ∃ k, run step ⟨h, .reading⟩ (List.replicate k (.iterate env)) =
        some (⟨g, .responding code⟩, [])
    | .error e => ∃ k g, run step ⟨h, .reading⟩ (List.replicate k (.iterate env)) =
        some (⟨g, .dead e⟩, []) := by
  induction n with
  | zero => exact fun _ hn => absurd hn (Nat.not_lt_zero _)
  | succ n ih =>
    intro h hs hn
    rw [processReadLoop]
    -- one iteration, and the run that starts with it
    have hstep : ∀ {t : Server} {o : List Reply} {k : ℕ} {t' : Server},
        step ⟨h, .reading⟩ (.iterate env) = some (t, []) →
        run step t (List.replicate k (.iterate env)) = some (t', o) →
        run step ⟨h, .reading⟩ (List.replicate (k + 1) (.iterate env)) = some (t', o) := by
      intro t o k t' ht hr
      rw [List.replicate_succ]
      exact run_cons_eq_some.mpr ⟨t, [], o, ht, hr, rfl⟩
    by_cases hb : InBody h
    · have hpost := (processReadIter_post env hs).1 hb
      cases hr : processReadIter env h with
      | error e => exact ⟨1, h, hstep (k := 0) (by simp [step, hr]) (run_nil _)⟩
      | ok p =>
        obtain ⟨code, g⟩ := p
        have hg := hpost.of_ok hr
        cases code with
        | some code => exact ⟨1, hstep (k := 0) (by simp [step, hr]) (run_nil _)⟩
        | none =>
          obtain ⟨hread, hlt, hle⟩ := hg.2.2.1 rfl
          dsimp only at hread hlt hle
          have hrest := ih (h := g) hg.1 (by omega)
          simp only [bind, Except.bind]
          cases hloop : processReadLoop env n g with
          | error e =>
            rw [hloop] at hrest
            obtain ⟨k, f, hk⟩ := hrest
            exact ⟨k + 1, f, hstep (by simp [step, hr]) hk⟩
          | ok q =>
            rw [hloop] at hrest
            obtain ⟨k, hk⟩ := hrest
            exact ⟨k + 1, hstep (by simp [step, hr]) hk⟩
    · have hr := (processReadIter_post env hs).2 hb
      rw [hr]
      exact ⟨1, h, hstep (k := 0) (by simp [step, hr]) (run_nil _)⟩

/-- **`Business`** is a packet, some iterations and the response. -/
theorem business_run {pkgHeader body : List UInt8} (hs : Sound h) (hb : body.length < 2 ^ 16) :
    match business env h pkgHeader body with
    | .ok r => ∃ k, run step ⟨h, .idle⟩
        (.packet body :: (List.replicate k (.iterate env) ++ [.respond env pkgHeader])) =
          some (⟨r.obj, .idle⟩, [r])
    | .error e => ∃ is g, run step ⟨h, .idle⟩ (.packet body :: is) = some (⟨g, .dead e⟩, []) := by
  have hloop := processReadLoop_run env _ (hs.receive hb) (Nat.lt_succ_self _)
  have hpacket : ∀ {is : List Act} {t : Server} {o : List Reply},
      run step ⟨h.receive body, .reading⟩ is = some (t, o) →
      run step ⟨h, .idle⟩ (.packet body :: is) = some (t, o) := fun hr =>
    run_cons_eq_some.mpr ⟨_, [], _, rfl, hr, rfl⟩
  unfold business processRead
  cases hl : processReadLoop env
      ((h.receive body).mReadIdx - (h.receive body).mCheckIdx + 1) (h.receive body) with
  | error e =>
    rw [hl] at hloop
    obtain ⟨k, g, hk⟩ := hloop
    exact ⟨_, g, hpacket hk⟩
  | ok p =>
    rw [hl] at hloop
    obtain ⟨k, hk⟩ := hloop
    have hrespond : ∀ {t : Server} {o : List Reply},
        step ⟨p.2, .responding p.1⟩ (.respond env pkgHeader) = some (t, o) →
        run step ⟨h, .idle⟩ (.packet body :: (List.replicate k (.iterate env) ++
          [.respond env pkgHeader])) = some (t, o) := fun ht =>
      hpacket (run_append_eq_some.mpr ⟨_, [], _, hk, run_cons_eq_some.mpr
        ⟨_, _, [], ht, rfl, (List.append_nil _).symm⟩, rfl⟩)
    simp only [bind, Except.bind]
    cases hr : reply env pkgHeader p.1 p.2 with
    | error e => exact ⟨_, p.2, hrespond (by simp [step, hr])⟩
    | ok r => exact ⟨k, hrespond (by simp [step, hr])⟩

/-- **The body is never left** exactly where every iteration starts on an object that is
`InBody`. -/
theorem staysInBody_iff (u : Uninit) (is : List Act)
    (hv : Guarded step (fun s i => i.Valid s) ⟨new u, .idle⟩ is) :
    Always step Inside ⟨new u, .idle⟩ is ↔
      Guarded step (fun s i => i.InBody s) ⟨new u, .idle⟩ is :=
  always_iff_guarded (I := fun s => Sound s.obj)
    (fun s i hs _ hi => by
      obtain ⟨t, o, ht, hiff, hts⟩ := step_inside s i hs hi
      exact ⟨t, o, ht, hiff, fun _ => hts⟩)
    (sound_new u) (by simp [Inside]) hv

/-- A packet that stops behind a carriage return, then one that fits the cursor. -/
theorem staysInBody_two : Always step Inside ⟨new .zero, .idle⟩
    [.packet (ascii "abc\r"), .iterate .noFiles, .respond .noFiles [0, 0, 1, 0, 0, 0, 0, 0],
      .packet (ascii "ab\r\nx"), .iterate .noFiles] :=
  (staysInBody_iff .zero _ (by decide +kernel)).mpr (by decide +kernel)

/-- A packet that stops behind a carriage return, then one that ends with a line feed there. -/
theorem not_staysInBody : ¬ ∀ (u : Uninit) (is : List Act),
    Guarded step (fun s i => i.Valid s) ⟨new u, .idle⟩ is →
      Always step Inside ⟨new u, .idle⟩ is := by
  intro hall
  have h := hall .zero [.packet (ascii "abc\r"), .iterate .noFiles,
    .respond .noFiles [0, 0, 1, 0, 0, 0, 0, 0], .packet (ascii "ab\r\n"), .iterate .noFiles]
    (by decide +kernel)
  exact absurd h (by decide +kernel)

end HttpServer

end ServerNginx
