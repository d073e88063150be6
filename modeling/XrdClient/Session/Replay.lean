/-
  Session/Replay.lean --- when a request is sent again, and how often.

  A request that is not idempotent is put on the wire again only after a redirect or a
  `kXR_wait`.  How often any request is tried is bounded by three things that feed each
  other: connections that fail, redirects, and returns to where the request started.  A
  return is possible only once a redirect has been counted since the last one, so the
  redirects bound the returns, and with them the attempts.

  A redirect to a file of this machine is not counted.  It is made once between two
  returns at most.
-/
import XrdClient.Session.Route

set_option autoImplicit false

namespace XrdClient.Session

open XrdClient.Lib
open XrdClient.Proto
open XrdClient.Auth

/-! ## What a turn does -/

/-- What a request may be repeated after. -/
def Answer.mayRepeat : Answer → Bool
  | .redirected => true
  | .wait => true
  | _ => false

/-- Each time but the last, a server asked to wait; a redirect is an answer, and so is a
result, which nothing else is. -/
theorem hearing_answers (c : Policy) : ∀ (notices : List Notice) (last : Last) (waits : Nat) (parked : Int),
    ∃ earlier final, (hearing c notices last waits parked).1 = earlier ++ [final] ∧
      (∀ a ∈ earlier, a = .wait) ∧
      (∀ target, (hearing c notices last waits parked).2 = .error (.redirect target) →
        final = .redirected) ∧
      ((∃ data, (hearing c notices last waits parked).2 = .ok data) ↔ final = .completed) := by
  intro notices
  induction notices with
  | nil =>
    intro last waits parked
    refine ⟨[], last.answer, rfl, by simp, ?_, ?_⟩
    · intro target h
      cases last with
      | redirected => rfl
      | refused code =>
        simp only [hearing, Last.outcome, errorForStatus] at h
        split at h <;> cases h
      | _ => cases h
    · cases last with
      | completed data => exact ⟨fun _ => rfl, fun _ => ⟨data, rfl⟩⟩
      | _ => exact ⟨fun ⟨_, h⟩ => (by cases h), fun h => (by cases h)⟩
  | cons notice notices ih =>
    intro last waits parked
    have hstop : ∀ (answer : Answer) (e : Thrown), answer ≠ .completed → (∀ target, e ≠ .redirect target) →
        ∃ earlier final, [answer] = earlier ++ [final] ∧ (∀ a ∈ earlier, a = Answer.wait) ∧
          (∀ target, (Except.error e : Except Thrown Bytes) = .error (.redirect target) →
            final = .redirected) ∧
          ((∃ data, (Except.error e : Except Thrown Bytes) = .ok data) ↔ final = .completed) := by
      intro answer e hanswer he
      exact ⟨[], answer, rfl, by simp, fun target h => absurd (Except.error.inj h) (he target),
        fun ⟨_, h⟩ => (by cases h), fun h => absurd h hanswer⟩
    cases notice with
    | wait seconds late again =>
      unfold hearing
      dsimp only
      split
      · exact hstop _ _ (by simp) (by simp)
      split
      · exact hstop _ _ (by simp) (by simp)
      split
      · exact hstop _ _ (by simp) (by simp)
      split
      · obtain ⟨earlier, final, hanswers, hearlier, hfinal⟩ := ih last (waits + 1) (parked + seconds)
        refine ⟨.wait :: earlier, final, by simp [hanswers], ?_, hfinal⟩
        intro a ha
        rcases List.mem_cons.mp ha with rfl | ha
        · rfl
        · exact hearlier a ha
      · exact ih last (waits + 1) (parked + seconds)
    | waitresp seconds =>
      unfold hearing
      split
      · exact ih last waits parked
      · split
        · exact hstop _ _ (by simp) (by simp)
        · exact ih last waits _

theorem Mishap.thrown_ne (m : Mishap) (target : RedirectInfo) : m.thrown ≠ .redirect target := by
  cases m <;> simp [Mishap.thrown]

/-- All that was heard, a request may be repeated after, but for the last of it, unless it
is a redirect. -/
theorem Turn.answers_mayRepeat (c : Policy) (t : Turn) :
    (∀ a ∈ (t.answers c).1.dropLast, a.mayRepeat = true) ∧
      ∀ target, (t.answers c).2 = .error (.redirect target) →
        ∀ a ∈ (t.answers c).1, a.mayRepeat = true := by
  unfold Turn.answers
  split
  · next mishap _ =>
    refine ⟨by simp, fun target h => ?_⟩
    exact absurd (Except.error.inj h) (mishap.thrown_ne target)
  · obtain ⟨earlier, final, hanswers, hearlier, hfinal, -⟩ := hearing_answers c t.notices t.last 0 0
    have hwaits : ∀ a ∈ earlier, a.mayRepeat = true := fun a ha => by rw [hearlier a ha]; rfl
    rw [hanswers, List.dropLast_concat]
    refine ⟨hwaits, fun target h a ha => ?_⟩
    rcases List.mem_append.mp ha with ha | ha
    · exact hwaits a ha
    · rw [List.mem_singleton.mp ha, hfinal target h]
      rfl

/-- What comes of a request that was answered is its answer, after some `kXR_wait`s. -/
theorem Turn.answers_completed (c : Policy) (t : Turn) (data : Bytes) (h : (t.answers c).2 = .ok data) :
    ∃ earlier, (t.answers c).1 = earlier ++ [.completed] := by
  unfold Turn.answers at h ⊢
  split at h
  · cases h
  · obtain ⟨earlier, final, hanswers, -, -, hfinal⟩ := hearing_answers c t.notices t.last 0 0
    exact ⟨earlier, by rw [hanswers, hfinal.mp ⟨data, h⟩]⟩

/-- Of a request that comes to nothing, the last that is known is no result. -/
theorem Turn.answers_failed (c : Policy) (t : Turn) {e : Thrown} (h : (t.answers c).2 = .error e) :
    (t.answers c).1.getLast? ≠ some .completed := by
  unfold Turn.answers at h ⊢
  split at h
  · simp
  · obtain ⟨earlier, final, hanswers, -, -, hfinal⟩ := hearing_answers c t.notices t.last 0 0
    rw [hanswers, List.getLast?_concat]
    intro hcompleted
    obtain ⟨data, hok⟩ := hfinal.mpr (Option.some.inj hcompleted)
    rw [h] at hok
    cases hok

/-- The router is on a file of this machine. -/
def Router.onFile (r : Router) : Bool :=
  match r.link with
  | some link => link.disk && !link.done
  | none => false

/-- The next attempt is at a file of this machine. -/
def Errand.onDisk (s : Errand) : Bool := s.route.target.isNone && s.router.onFile

/-- How many connections may still fail. -/
def Errand.retriesLeft (c : Policy) (s : Errand) : Nat := (c.connectRetries - s.route.attempts).toNat

/-- How many redirects may still be followed. -/
def Errand.hopsLeft (c : Policy) (s : Errand) : Nat := (c.redirectLimit - s.route.hops).toNat

/-- A new connection is no file. -/
theorem Router.dial_spec (r : Router) (t : Turn) :
    (r.dial t).2 = { r with made := (r.dial t).2.made } ∧
      (∀ link, (r.dial t).1 = .ok link → link.disk = false) ∧
      ∀ target, (r.dial t).1 ≠ .error (.redirect target) := by
  unfold Router.dial
  split
  · next mishap _ =>
    refine ⟨rfl, fun link h => (by cases h), fun target h => ?_⟩
    exact mishap.thrown_ne target (Except.error.inj h)
  · exact ⟨rfl, fun link h => (by cases h; rfl), fun target h => by cases h⟩

theorem Router.connect_spec (r : Router) (t : Turn) :
    (r.connect t).2 = { r with link := (r.connect t).2.link, made := (r.connect t).2.made } ∧
      (r.connect t).2.onFile = false ∧
      (∀ link, (r.connect t).1 = .ok link → link.disk = false ∧ (r.connect t).2.link = some link) ∧
      ∀ target, (r.connect t).1 ≠ .error (.redirect target) := by
  have hdial := Router.dial_spec { r with link := none } t
  unfold Router.connect
  cases hd : Router.dial { r with link := none } t with
  | mk dialled router =>
    rw [hd] at hdial
    obtain ⟨hrouter, hlink, hnot⟩ := hdial
    dsimp only at hrouter
    cases dialled with
    | error e =>
      rw [hrouter]
      exact ⟨rfl, rfl, fun link h => (by cases h), hnot⟩
    | ok link =>
      have hwire := hlink link rfl
      rw [hrouter]
      refine ⟨rfl, ?_, ?_, fun target h => by cases h⟩
      · simp [Router.onFile, hwire]
      · intro link' h
        cases h
        exact ⟨hwire, rfl⟩

/-- The connection at hand: the file the router is on, or one on the wire. -/
theorem Router.session_spec (r : Router) (t : Turn) :
    (r.session t).2 = { r with link := (r.session t).2.link, made := (r.session t).2.made } ∧
      (∀ target, (r.session t).1 ≠ .error (.redirect target)) ∧
      (r.onFile = true ∧ (r.session t).2 = r ∧
          (∃ link, (r.session t).1 = .ok link ∧ link.disk = true) ∨
        r.onFile = false ∧ (r.session t).2.onFile = false ∧
          ∀ link, (r.session t).1 = .ok link → link.disk = false ∧ (r.session t).2.link = some link) := by
  obtain ⟨hframe, hfile, hok, hnot⟩ := r.connect_spec t
  unfold Router.session
  cases hlink : r.link with
  | none => exact ⟨hframe, hnot, .inr ⟨by simp [Router.onFile, hlink], hfile, hok⟩⟩
  | some link =>
    have hon : r.onFile = (link.disk && !link.done) := by simp [Router.onFile, hlink]
    dsimp only
    split
    · next hgone =>
      have hoff : r.onFile = false := by
        rw [hon]
        cases hdisk : link.disk with
        | false => rfl
        | true =>
          rw [Link.closed, if_pos hdisk] at hgone
          simp [hgone]
      by_cases hre : r.reconnect = true
      · rw [if_pos hre]
        exact ⟨hframe, hnot, .inr ⟨hoff, hfile, hok⟩⟩
      · rw [if_neg hre]
        exact ⟨rfl, fun target h => (by cases h), .inr ⟨hoff, hoff, fun link h => (by cases h)⟩⟩
    · next hgone =>
      refine ⟨rfl, fun target h => (by cases h), ?_⟩
      cases hdisk : link.disk with
      | true =>
        rw [Link.closed, if_pos hdisk] at hgone
        exact .inl ⟨by simp [hon, hdisk, hgone], rfl, link, rfl, hdisk⟩
      | false =>
        have hoff : r.onFile = false := by simp [hon, hdisk]
        refine .inr ⟨hoff, hoff, ?_⟩
        intro link' h
        cases h
        exact ⟨hdisk, hlink⟩

/-- What an attempt leaves alone. -/
structure Errand.Same (s s' : Errand) : Prop where
  request : s'.request = s.request
  home : s'.route.home = s.route.home
  target : s'.route.target = s.route.target
  moved : s'.route.moved = s.route.moved
  hops : s'.route.hops = s.route.hops
  attempts : s'.route.attempts = s.route.attempts
  sticky : s'.router.sticky = s.router.sticky

/-- An attempt on the wire, from what was heard of it. -/
structure Errand.OnWire (s s' : Errand) (log : List Entry) (result : Except Thrown Bytes) : Prop where
  before : s.onDisk = false
  after : s'.onDisk = false
  heard : ∃ answers : List Answer, log = .attempt false :: answers.map .put ∧
    (∀ a ∈ answers.dropLast, a.mayRepeat = true) ∧
    (∀ target, result = .error (.redirect target) → ∀ a ∈ answers, a.mayRepeat = true) ∧
    ∀ data, result = .ok data → ∃ earlier, answers = earlier ++ [.completed]
  link : ∀ target, result = .error (.redirect target) → s.route.target = none →
    s'.router.link = s'.route.link

/-- An attempt is at a file, and is answered by it, or is on the wire. -/
theorem Errand.attempt_cases (c : Policy) (s : Errand) (t : Turn) {log : List Entry}
    {result : Except Thrown Bytes} {s' : Errand} (h : s.attempt c t = (log, result, s')) :
    s.Same s' ∧
      (s.onDisk = true ∧ s'.onDisk = true ∧ log = [.attempt true] ∧
          result = t.disk.mapError Disk.thrown ∨ s.OnWire s' log result) := by
  obtain ⟨hearlier, hredirected⟩ := t.answers_mayRepeat c
  have hcompleted := t.answers_completed c
  unfold Errand.attempt at h
  cases htarget : s.route.target with
  | none =>
    have honDisk : s.onDisk = s.router.onFile := by simp [Errand.onDisk, htarget]
    obtain ⟨hframe, hnot, hcases⟩ := s.router.session_spec t
    rw [htarget] at h
    dsimp only at h
    cases hsession : s.router.session t with
    | mk dialled router =>
      rw [hsession] at h hframe hnot hcases
      dsimp only at h hframe hnot hcases
      have hsticky : router.sticky = s.router.sticky := by rw [hframe]
      cases dialled with
      | error e =>
        cases h
        refine ⟨⟨rfl, rfl, rfl, rfl, rfl, rfl, hsticky⟩, .inr ?_⟩
        rcases hcases with ⟨-, -, link, hok, -⟩ | ⟨hoff, hoff', -⟩
        · cases hok
        · exact ⟨honDisk.trans hoff, by simp [Errand.onDisk, hoff'],
            ⟨[], rfl, by simp, fun _ _ => by simp, fun _ h => by cases h⟩, fun target hr => absurd (by rw [Except.error.inj hr]) (hnot target)⟩
      | ok link =>
        dsimp only at h
        rcases hcases with ⟨hon, hsame, link', hok, hdisk⟩ | ⟨hoff, hoff', hwire⟩
        · cases hok
          rw [if_pos hdisk] at h
          cases h
          refine ⟨⟨rfl, rfl, rfl, rfl, rfl, rfl, hsticky⟩, .inl ⟨honDisk.trans hon, ?_, rfl, rfl⟩⟩
          simp [Errand.onDisk, htarget, hsame, hon]
        · obtain ⟨hnodisk, hlink⟩ := hwire link rfl
          rw [if_neg (by simp [hnodisk])] at h
          cases h
          exact ⟨⟨rfl, rfl, rfl, rfl, rfl, rfl, hsticky⟩, .inr ⟨honDisk.trans hoff,
            by simp [Errand.onDisk, hoff'], ⟨_, rfl, hearlier, hredirected, hcompleted⟩, fun _ _ _ => hlink⟩⟩
  | some url =>
    have honDisk : ∀ s' : Errand, s'.route.target = some url → s'.onDisk = false := by
      intro s' hs'
      simp [Errand.onDisk, hs']
    obtain ⟨hframe, hlink, hnot⟩ := s.router.dial_spec t
    rw [htarget] at h
    dsimp only at h
    cases hdial : s.router.dial t with
    | mk dialled router =>
      rw [hdial] at h hframe hlink hnot
      dsimp only at h hframe hlink hnot
      have hsticky : router.sticky = s.router.sticky := by rw [hframe]
      have hno : ¬ s.route.target = none := by simp [htarget]
      cases dialled with
      | error e =>
        cases h
        exact ⟨⟨rfl, rfl, rfl, rfl, rfl, rfl, hsticky⟩, .inr ⟨honDisk s htarget, honDisk _ htarget,
          ⟨[], rfl, by simp, fun _ _ => by simp, fun _ h => by cases h⟩, fun _ _ h => absurd h hno⟩⟩
      | ok link =>
        dsimp only at h
        rw [if_neg (by simp [hlink link rfl])] at h
        cases h
        exact ⟨⟨rfl, rfl, rfl, rfl, rfl, rfl, hsticky⟩, .inr ⟨honDisk s htarget, honDisk _ htarget,
          ⟨_, rfl, hearlier, hredirected, hcompleted⟩, fun _ _ h => absurd h hno⟩⟩

/-- What an attempt writes down. -/
theorem Errand.attempt_log {c : Policy} {s : Errand} {t : Turn} {log : List Entry}
    {result : Except Thrown Bytes} {s' : Errand} (h : s.attempt c t = (log, result, s')) :
    ∃ answers : List Answer, log = .attempt s.onDisk :: answers.map .put ∧
      ∀ a ∈ answers.dropLast, a.mayRepeat = true := by
  rcases (attempt_cases c s t h).2 with ⟨hon, -, rfl, -⟩ | hwire
  · exact ⟨[], by simp [hon], by simp⟩
  · obtain ⟨answers, rfl, hearlier, -⟩ := hwire.heard
    exact ⟨answers, by rw [hwire.before], hearlier⟩

/-- A file does not redirect, and has no connection to lose. -/
theorem Errand.attempt_wire {c : Policy} {s : Errand} {t : Turn} {log : List Entry} {e : Thrown}
    {s' : Errand} (h : s.attempt c t = (log, .error e, s'))
    (he : (∃ target, e = .redirect target) ∨ ∃ timeout, e = .connection timeout) :
    s.OnWire s' log (.error e) := by
  rcases (attempt_cases c s t h).2 with ⟨-, -, -, hresult⟩ | hwire
  · cases hread : t.disk with
    | ok data =>
      rw [hread] at hresult
      cases hresult
    | error d =>
      rw [hread] at hresult
      obtain rfl := Except.error.inj hresult
      rcases he with ⟨target, he⟩ | ⟨timeout, he⟩ <;> cases d <;> cases he
  · exact hwire

/-- A sticky router moves, any other sends the request away. -/
structure Errand.Kept (s : Errand) : Prop where
  target : s.router.sticky = true → s.route.target = none
  moved : s.router.sticky = false → s.route.moved = false

theorem Errand.Kept.same {s s' : Errand} (h : s.Kept) (hsame : s.Same s') : s'.Kept :=
  ⟨fun hs => hsame.target.trans (h.target (hsame.sticky ▸ hs)),
    fun hs => hsame.moved.trans (h.moved (hsame.sticky ▸ hs))⟩

theorem Router.move_sticky (c : Policy) (r : Router) (cameFrom : Option Link) (destination : Url) :
    (r.move c cameFrom destination).2.sticky = r.sticky := by
  unfold Router.move
  split
  · rfl
  · split <;> rfl

/-- A redirect is followed by the router, if it is sticky, and by the request otherwise. -/
theorem Errand.point_spec (c : Policy) {s : Errand} (h : s.Kept) (destination : Url)
    (hlink : s.route.target = none → s.router.link = s.route.link) :
    (s.point c destination).Kept ∧ (s.point c destination).request = s.request ∧
      (s.point c destination).route.hops = s.route.hops ∧
      (s.point c destination).route.attempts = s.route.attempts := by
  unfold Errand.point
  cases hsticky : s.router.sticky with
  | false =>
    exact ⟨⟨fun hs => absurd (hsticky.symm.trans hs) (by decide), fun _ => h.moved hsticky⟩, rfl, rfl, rfl⟩
  | true =>
    have htarget := h.target hsticky
    have hmoved : (s.router.move c s.route.link destination).1 = true := by
      unfold Router.move
      rw [if_neg (by simp [hlink htarget])]
      split <;> rfl
    have hkeeps := s.router.move_sticky c s.route.link destination
    rw [htarget]
    cases hmove : s.router.move c s.route.link destination with
    | mk moved router =>
      rw [hmove] at hmoved hkeeps
      dsimp only at hmoved hkeeps
      subst hmoved
      refine ⟨⟨fun _ => htarget, fun hs => ?_⟩, rfl, rfl, rfl⟩
      exact absurd (hsticky.symm.trans (hkeeps.symm.trans hs)) (by decide)

theorem toNat_sub_succ {limit : Int} {n : Nat} (h : ((n + 1 : Nat) : Int) ≤ limit) :
    (limit - ((n + 1 : Nat) : Int)).toNat + 1 = (limit - (n : Int)).toNat := by
  omega

/-- A redirect that is followed is counted, or leads to a file. -/
theorem Errand.follow_cases {parse : Text → Except Misdirected Parsed} {c : Policy} {s s' : Errand}
    {t : Turn} {target : RedirectInfo} {log : List Entry} (hk : s.Kept)
    (hlink : s.route.target = none → s.router.link = s.route.link)
    (h : s.follow parse c t target = (log, .inl s')) :
    s'.Kept ∧ s'.request.idempotent = s.request.idempotent ∧ s'.retriesLeft c = s.retriesLeft c ∧
      (log = [.hop] ∧ s'.hopsLeft c + 1 = s.hopsLeft c ∨
        log = [] ∧ s'.onDisk = true ∧ s'.hopsLeft c = s.hopsLeft c ∧ s'.route.away = s.route.away) := by
  unfold Errand.follow at h
  split at h
  · cases h
  split at h
  · cases h
  · -- a file
    unfold Errand.goLocal at h
    split at h
    · cases h
    · split at h
      · next hsticky =>
        cases h
        simp only [Bool.and_eq_true, decide_eq_true_eq] at hsticky
        have htarget := hk.target hsticky.1
        exact ⟨⟨hk.target, hk.moved⟩, rfl, rfl, .inr ⟨rfl, by simp [Errand.onDisk, htarget, Router.onFile],
          rfl, rfl⟩⟩
      · cases h
  · -- elsewhere
    split at h
    · cases h
    next followed hredirect =>
    cases h
    unfold Errand.redirect at hredirect
    dsimp only at hredirect
    split at hredirect
    · cases hredirect
    next hlimit =>
    split at hredirect
    · cases hredirect
    next destination _ =>
    have hcounted : Errand.Kept { s with route := { s.route with hops := s.route.hops + 1 } } :=
      ⟨hk.target, hk.moved⟩
    obtain ⟨hkept, hrequest, hhops, hattempts⟩ := point_spec c hcounted destination hlink
    split at hredirect
    · cases hredirect
    cases hredirect
    refine ⟨⟨hkept.target, hkept.moved⟩, by rw [hrequest], ?_, .inl ⟨rfl, ?_⟩⟩
    · simp only [Errand.retriesLeft, hattempts]
    · simp only [Errand.hopsLeft, hhops]
      exact toNat_sub_succ (Int.not_lt.mp hlimit)

/-- The way back leads home. -/
theorem Errand.goHome_spec {s : Errand} (h : s.Kept) (reason : Text) :
    (s.goHome reason).Kept ∧ (s.goHome reason).request.idempotent = s.request.idempotent ∧
      (s.goHome reason).route.hops = s.route.hops ∧
      (s.goHome reason).route.attempts = s.route.attempts ∧
      (s.goHome reason).route.away = false := by
  unfold Errand.goHome
  dsimp only
  cases htarget : s.route.target with
  | some url =>
    have hsticky : s.router.sticky = false := by
      by_contra hs
      rw [h.target (by simpa using hs)] at htarget
      cases htarget
    have hmoved := h.moved hsticky
    exact ⟨⟨fun _ => rfl, fun _ => hmoved⟩, rfl, rfl, rfl, by simp [Route.away, hmoved]⟩
  | none =>
    simp only [Option.isSome_none, Bool.false_eq_true, if_false, Option.getD_none, Errand.returnHome,
      ne_eq, not_true_eq_false]
    exact ⟨⟨fun _ => rfl, fun _ => rfl⟩, trivial, trivial, trivial, rfl⟩

/-- A connection that failed is replaced for a request that may be repeated. -/
theorem Errand.recover_cases {c : Policy} {s s' : Errand} {t : Turn} {timeout : Bool} {log : List Entry}
    (hk : s.Kept) (h : s.recover c t timeout = (log, .inl s')) :
    s'.Kept ∧ s.request.idempotent = true ∧ s'.request.idempotent = s.request.idempotent ∧
      s'.retriesLeft c + 1 = s.retriesLeft c ∧ s'.hopsLeft c = s.hopsLeft c ∧
      s'.route.away = false ∧ log = if s.route.away then [.home] else [] := by
  unfold Errand.recover at h
  split at h
  · cases h
  dsimp only at h
  split at h
  · cases h
  next hretry =>
  simp only [Errand.retryable, Bool.not_eq_true', Bool.not_eq_false, Bool.and_eq_true,
    decide_eq_true_eq] at hretry
  obtain ⟨⟨-, hattempts⟩, hidem⟩ := hretry
  have hcounted : Errand.Kept { s with route := { s.route with attempts := s.route.attempts + 1 } } :=
    ⟨hk.target, hk.moved⟩
  have hleft := toNat_sub_succ hattempts
  split at h
  · next haway =>
    have haway' : s.route.away = true := haway
    cases h
    obtain ⟨hkept, hsame, hhops, hcount, hhome⟩ := goHome_spec hcounted LOST
    refine ⟨hkept, hidem, hsame, ?_, by simp only [Errand.hopsLeft, hhops], hhome, by rw [if_pos haway']⟩
    simp only [Errand.retriesLeft, hcount]
    exact hleft
  · next haway =>
    have haway' : ¬ s.route.away = true := haway
    cases h
    have hsticky : (s.router.drop s.route.link).sticky = s.router.sticky := by
      unfold Router.drop
      split <;> rfl
    refine ⟨⟨fun hs => hk.target (hsticky ▸ hs), fun hs => hk.moved (hsticky ▸ hs)⟩, hidem, rfl, hleft, rfl,
      (by simpa using haway' : s.route.away = false), by rw [if_neg haway']⟩

/-- A refusal is taken back by a request that may be repeated, while it may hop. -/
theorem Errand.retryAtBalancer_cases {c : Policy} {s s' : Errand} {code : Nat} {log : List Entry}
    (hk : s.Kept) (h : s.retryAtBalancer c code = (log, .inl s')) :
    s'.Kept ∧ s.request.idempotent = true ∧ s'.request.idempotent = s.request.idempotent ∧
      s'.retriesLeft c = s.retriesLeft c ∧ s'.hopsLeft c = s.hopsLeft c ∧ 0 < s.hopsLeft c ∧
      s.route.away = true ∧ s'.route.away = false ∧ log = [.home] := by
  unfold Errand.retryAtBalancer at h
  split at h
  · cases h
  next hretry =>
  simp only [Errand.balancerMayRetry, Bool.not_eq_true', Bool.not_eq_false, Bool.and_eq_true,
    decide_eq_true_eq] at hretry
  obtain ⟨⟨⟨⟨haway, -⟩, -⟩, hidem⟩, hhops⟩ := hretry
  obtain ⟨hkept, hsame, hhops', hcount, hhome⟩ := goHome_spec hk (triedReason code)
  have hpos : 0 < s.hopsLeft c := by
    unfold Errand.hopsLeft
    omega
  cases h
  refine ⟨?_, hidem, ?_, ?_, ?_, hpos, haway, ?_, rfl⟩
  all_goals dsimp only; split
  · exact ⟨hkept.target, hkept.moved⟩
  · exact hkept
  · exact hsame
  · exact hsame
  · simp only [Errand.retriesLeft, hcount]
  · simp only [Errand.retriesLeft, hcount]
  · simp only [Errand.hopsLeft, hhops']
  · simp only [Errand.hopsLeft, hhops']
  · exact hhome
  · exact hhome

/-- What a turn that is not the last one does. -/
inductive Errand.Goes (c : Policy) (s s' : Errand) : List Entry → Prop where
  /-- A redirect is followed. -/
  | hop (answers : List Answer) (repeats : ∀ a ∈ answers, a.mayRepeat = true)
      (wire : s.onDisk = false) (hops : s'.hopsLeft c + 1 = s.hopsLeft c)
      (retries : s'.retriesLeft c = s.retriesLeft c) :
      Errand.Goes c s s' (.attempt false :: answers.map .put ++ [.hop])
  /-- A redirect to a file is followed. -/
  | file (answers : List Answer) (repeats : ∀ a ∈ answers, a.mayRepeat = true)
      (wire : s.onDisk = false) (disk : s'.onDisk = true) (hops : s'.hopsLeft c = s.hopsLeft c)
      (retries : s'.retriesLeft c = s.retriesLeft c) (away : s'.route.away = s.route.away) :
      Errand.Goes c s s' (.attempt false :: answers.map .put)
  /-- A connection that failed is replaced. -/
  | recover (answers : List Answer) (idempotent : s.request.idempotent = true)
      (wire : s.onDisk = false) (hops : s'.hopsLeft c = s.hopsLeft c)
      (retries : s'.retriesLeft c + 1 = s.retriesLeft c) (home : s'.route.away = false) :
      Errand.Goes c s s'
        (.attempt false :: answers.map .put ++ if s.route.away then [.home] else [])
  /-- A refusal is taken back. -/
  | balancer (answers : List Answer) (idempotent : s.request.idempotent = true)
      (hops : s'.hopsLeft c = s.hopsLeft c) (left : 0 < s.hopsLeft c)
      (retries : s'.retriesLeft c = s.retriesLeft c) (away : s.route.away = true)
      (home : s'.route.away = false) :
      Errand.Goes c s s' (.attempt s.onDisk :: answers.map .put ++ [.home])

theorem Errand.Same.left {s s' : Errand} (h : s.Same s') (c : Policy) :
    s'.hopsLeft c = s.hopsLeft c ∧ s'.retriesLeft c = s.retriesLeft c ∧ s'.route.away = s.route.away := by
  simp only [Errand.hopsLeft, Errand.retriesLeft, Route.away, h.hops, h.attempts, h.target, h.moved,
    and_self]

/-- **What a turn does, if it is not the last.** -/
theorem Errand.turn_goes {parse : Text → Except Misdirected Parsed} {c : Policy} {world : Nat → Turn}
    {s s' : Errand} {log : List Entry} (hk : s.Kept) (h : s.turn parse c world = (log, .inl s')) :
    s'.Kept ∧ s'.request.idempotent = s.request.idempotent ∧ s.Goes c s' log := by
  unfold Errand.turn at h
  dsimp only at h
  split at h
  · cases h
  cases hattempt : s.attempt c (world s.turns) with
  | mk first rest =>
    obtain ⟨result, mid⟩ := rest
    have hsame := (attempt_cases c s (world s.turns) hattempt).1
    rw [hattempt] at h
    dsimp only at h
    -- the count of turns is nobody's business
    have hsame' : s.Same { mid with turns := mid.turns + 1 } :=
      ⟨hsame.request, hsame.home, hsame.target, hsame.moved, hsame.hops, hsame.attempts, hsame.sticky⟩
    have hkept := hk.same hsame'
    obtain ⟨hhops, hretries, haway⟩ := hsame'.left c
    have hidem : mid.request.idempotent = s.request.idempotent := by rw [hsame.request]
    cases result with
    | ok data => cases h
    | error e =>
      cases e with
      | redirect target =>
        have hwire := attempt_wire hattempt (.inl ⟨target, rfl⟩)
        obtain ⟨answers, rfl, -, hrepeats, -⟩ := hwire.heard
        simp only at h
        cases hfollow : Errand.follow parse c { mid with turns := mid.turns + 1 } (world s.turns) target with
        | mk more next =>
          rw [hfollow] at h
          cases h
          obtain ⟨hkept', hidem', hretries', hway⟩ := follow_cases hkept
            (fun htarget => hwire.link target rfl (hsame.target ▸ htarget)) hfollow
          refine ⟨hkept', hidem'.trans hidem, ?_⟩
          rcases hway with ⟨rfl, hcounted⟩ | ⟨rfl, hfile, hhops', haway'⟩
          · exact .hop answers (hrepeats target rfl) hwire.before (hcounted.trans hhops)
              (hretries'.trans hretries)
          · rw [List.append_nil]
            exact .file answers (hrepeats target rfl) hwire.before hfile (hhops'.trans hhops)
              (hretries'.trans hretries) (haway'.trans haway)
      | connection timeout =>
        have hwire := attempt_wire hattempt (.inr ⟨timeout, rfl⟩)
        obtain ⟨answers, rfl, -, -⟩ := hwire.heard
        simp only at h
        cases hrecover : Errand.recover c { mid with turns := mid.turns + 1 } (world s.turns) timeout with
        | mk more next =>
          rw [hrecover] at h
          cases h
          obtain ⟨hkept', hmay, hidem', hretries', hhops', hhome, rfl⟩ := recover_cases hkept hrecover
          refine ⟨hkept', hidem'.trans hidem, ?_⟩
          rw [haway]
          exact .recover answers (hidem ▸ hmay) hwire.before (hhops'.trans hhops)
            (hretries'.trans hretries) hhome
      | server code =>
        simp only at h
        cases hback : Errand.retryAtBalancer c { mid with turns := mid.turns + 1 } code with
        | mk more next =>
          rw [hback] at h
          cases h
          obtain ⟨hkept', hmay, hidem', hretries', hhops', hpos, haway', hhome, rfl⟩ :=
            retryAtBalancer_cases hkept hback
          refine ⟨hkept', hidem'.trans hidem, ?_⟩
          obtain ⟨answers, rfl, -⟩ := attempt_log hattempt
          exact .balancer answers (hidem ▸ hmay) (hhops'.trans hhops) (hhops ▸ hpos)
            (hretries'.trans hretries) (haway ▸ haway') hhome
      | waitLimit => cases h
      | expired => cases h
      | transient timeout attempts => cases h
      | redirectLimit => cases h
      | misdirected why => cases h
      | other text => cases h

/-! ## What is written down -/

/-- What was heard, each time the request was put on the wire. -/
def puts (log : List Entry) : List Answer :=
  log.filterMap fun entry =>
    match entry with
    | .put answer => some answer
    | _ => none

/-- No return but after a redirect that was counted since the last one; `away` is whether
there has been one. -/
def spaced : Bool → List Entry → Bool
  | _, [] => true
  | away, .home :: rest => away && spaced false rest
  | _, .hop :: rest => spaced true rest
  | away, _ :: rest => spaced away rest

theorem spaced_mono {away : Bool} : ∀ {log : List Entry}, spaced away log = true → spaced true log = true := by
  intro log
  induction log with
  | nil => exact fun _ => rfl
  | cons entry log ih =>
    intro h
    cases entry with
    | home =>
      simp only [spaced, Bool.and_eq_true] at h
      simp only [spaced, Bool.true_and]
      exact h.2
    | hop => exact h
    | attempt disk => exact ih h
    | put answer => exact ih h

theorem spaced_hop_mem {away : Bool} : ∀ {before between after : List Entry},
    spaced away (before ++ .home :: (between ++ .home :: after)) = true → .hop ∈ between := by
  have hbetween : ∀ between after : List Entry,
      spaced false (between ++ .home :: after) = true → .hop ∈ between := by
    intro between after
    induction between with
    | nil => intro h; cases h
    | cons entry between ih =>
      intro h
      cases entry with
      | home => cases h
      | hop => exact List.mem_cons_self
      | attempt disk => exact List.mem_cons_of_mem _ (ih h)
      | put answer => exact List.mem_cons_of_mem _ (ih h)
  intro before
  induction before generalizing away with
  | nil =>
    intro between after h
    simp only [List.nil_append, spaced, Bool.and_eq_true] at h
    exact hbetween between after h.2
  | cons entry before ih =>
    intro between after h
    cases entry with
    | home =>
      simp only [List.cons_append, spaced, Bool.and_eq_true] at h
      exact ih h.2
    | hop => exact ih h
    | attempt disk => exact ih h
    | put answer => exact ih h

/-- An attempt on its own: it counts once, and is no step away or home. -/
theorem count_attempt (disk disk' : Bool) (answers : List Answer) (more : List Entry) :
    List.count (.attempt disk) (.attempt disk' :: answers.map .put ++ more) =
      (if disk' = disk then 1 else 0) + List.count (.attempt disk) more := by
  have hnone : List.count (Entry.attempt disk) (answers.map Entry.put) = 0 := by
    rw [List.count_eq_zero]
    simp
  rw [List.cons_append, List.count_cons, List.count_append, hnone]
  simp only [beq_iff_eq, Entry.attempt.injEq]
  omega

theorem spaced_attempt (away disk : Bool) (answers : List Answer) (more : List Entry) :
    spaced away (.attempt disk :: answers.map .put ++ more) = spaced away more := by
  simp only [List.cons_append, spaced]
  induction answers with
  | nil => rfl
  | cons answer answers ih => exact ih

theorem puts_attempt (disk : Bool) (answers : List Answer) (more : List Entry) :
    puts (.attempt disk :: answers.map .put ++ more) = answers ++ puts more := by
  have hputs : List.filterMap (fun entry => match entry with
      | Entry.put answer => some answer
      | _ => none) (answers.map Entry.put) = answers := by
    rw [List.filterMap_map]
    exact List.filterMap_some
  simp only [puts, List.cons_append, List.filterMap_cons, List.filterMap_append, hputs]

/-- A call that ends at a redirect has tried a file, at most. -/
theorem Errand.follow_ends {parse : Text → Except Misdirected Parsed} {c : Policy} {s : Errand} {t : Turn}
    {target : RedirectInfo} {log : List Entry} {result : Except Thrown Bytes}
    (h : s.follow parse c t target = (log, .inr result)) : log = [] ∨ log = [.attempt true] := by
  unfold Errand.follow Errand.goLocal at h
  split at h
  · cases h
    exact .inl rfl
  split at h
  · cases h
    exact .inl rfl
  · split at h
    · cases h
      exact .inl rfl
    · split at h
      · cases h
      · cases h
        exact .inr rfl
  · split at h
    · cases h
      exact .inl rfl
    · cases h

theorem Errand.recover_ends {c : Policy} {s : Errand} {t : Turn} {timeout : Bool} {log : List Entry}
    {result : Except Thrown Bytes} (h : s.recover c t timeout = (log, .inr result)) : log = [] := by
  unfold Errand.recover at h
  split at h
  · cases h
    rfl
  dsimp only at h
  split at h
  · cases h
    rfl
  split at h <;> cases h

theorem Errand.retryAtBalancer_ends {c : Policy} {s : Errand} {code : Nat} {log : List Entry}
    {result : Except Thrown Bytes} (h : s.retryAtBalancer c code = (log, .inr result)) : log = [] := by
  unfold Errand.retryAtBalancer at h
  split at h <;> cases h
  rfl

/-- **What the last turn does.** -/
theorem Errand.turn_ends {parse : Text → Except Misdirected Parsed} {c : Policy} {world : Nat → Turn}
    {s : Errand} {log : List Entry} {result : Except Thrown Bytes}
    (h : s.turn parse c world = (log, .inr result)) :
    log = [] ∨ ∃ (answers : List Answer) (more : List Entry),
      log = .attempt s.onDisk :: answers.map .put ++ more ∧
        (∀ a ∈ answers.dropLast, a.mayRepeat = true) ∧
        (more = [] ∨ more = [.attempt true] ∧ s.onDisk = false) := by
  unfold Errand.turn at h
  dsimp only at h
  split at h
  · cases h
    exact .inl rfl
  cases hattempt : s.attempt c (world s.turns) with
  | mk first rest =>
    obtain ⟨outcome, mid⟩ := rest
    obtain ⟨answers, rfl, hearlier⟩ := attempt_log hattempt
    rw [hattempt] at h
    dsimp only at h
    refine .inr ⟨answers, ?_⟩
    have hplain : ∀ e : Except Thrown Bytes, (.attempt s.onDisk :: answers.map .put ++ [], .inr e) =
        ((log, .inr result) : List Entry × (Errand ⊕ Except Thrown Bytes)) →
        ∃ more, log = .attempt s.onDisk :: answers.map .put ++ more ∧
          (∀ a ∈ answers.dropLast, a.mayRepeat = true) ∧
          (more = [] ∨ more = [.attempt true] ∧ s.onDisk = false) := by
      intro e he
      cases he
      exact ⟨[], rfl, hearlier, .inl rfl⟩
    cases outcome with
    | ok data => exact hplain _ h
    | error e =>
      cases e with
      | redirect target =>
        simp only at h
        cases hfollow : Errand.follow parse c { mid with turns := mid.turns + 1 } (world s.turns) target with
        | mk more next =>
          rw [hfollow] at h
          cases h
          refine ⟨more, rfl, hearlier, ?_⟩
          rcases follow_ends hfollow with hmore | hmore
          · exact .inl hmore
          · exact .inr ⟨hmore, (attempt_wire hattempt (.inl ⟨target, rfl⟩)).before⟩
      | connection timeout =>
        simp only at h
        cases hrecover : Errand.recover c { mid with turns := mid.turns + 1 } (world s.turns) timeout with
        | mk more next =>
          rw [hrecover] at h
          cases h
          exact ⟨more, rfl, hearlier, .inl (recover_ends hrecover)⟩
      | server code =>
        simp only at h
        cases hback : Errand.retryAtBalancer c { mid with turns := mid.turns + 1 } code with
        | mk more next =>
          rw [hback] at h
          cases h
          exact ⟨more, rfl, hearlier, .inl (retryAtBalancer_ends hback)⟩
      | waitLimit => exact hplain _ h
      | expired => exact hplain _ h
      | transient timeout attempts => exact hplain _ h
      | redirectLimit => exact hplain _ h
      | misdirected why => exact hplain _ h
      | other text => exact hplain _ h

/-- A turn that returns something has heard it on the wire, or read it from a file. -/
theorem Errand.turn_completed {parse : Text → Except Misdirected Parsed} {c : Policy} {world : Nat → Turn}
    {s : Errand} {log : List Entry} {data : Bytes} (hdisk : ∀ data, (world s.turns).disk ≠ .ok data)
    (h : s.turn parse c world = (log, .inr (.ok data))) :
    ∃ earlier, puts log = earlier ++ [.completed] := by
  have hread : ∀ data, (world s.turns).disk.mapError Disk.thrown ≠ .ok data := by
    intro data heq
    cases hd : (world s.turns).disk with
    | ok data => exact hdisk data hd
    | error d =>
      rw [hd] at heq
      cases heq
  unfold Errand.turn at h
  dsimp only at h
  split at h
  · cases h
  cases hattempt : s.attempt c (world s.turns) with
  | mk first rest =>
    obtain ⟨outcome, mid⟩ := rest
    rw [hattempt] at h
    dsimp only at h
    cases outcome with
    | ok answer =>
      cases h
      rcases (attempt_cases c s (world s.turns) hattempt).2 with ⟨-, -, -, hresult⟩ | hwire
      · exact absurd hresult.symm (hread data)
      · obtain ⟨answers, rfl, -, -, hcompleted⟩ := hwire.heard
        obtain ⟨earlier, rfl⟩ := hcompleted data rfl
        exact ⟨earlier, by rw [puts_attempt]; simp [puts]⟩
    | error e =>
      cases e with
      | redirect target =>
        simp only [Errand.follow, Errand.goLocal] at h
        repeat' split at h
        all_goals first
          | cases h
          | exact absurd (Sum.inr.inj (Prod.mk.inj h).2) (hread data)
      | connection timeout =>
        simp only [Errand.recover] at h
        repeat' split at h
        all_goals cases h
      | server code =>
        simp only [Errand.retryAtBalancer] at h
        repeat' split at h
        all_goals cases h
      | waitLimit => cases h
      | expired => cases h
      | transient timeout attempts => cases h
      | redirectLimit => cases h
      | misdirected why => cases h
      | other text => cases h

/-! ## The loop -/

/-- How many turns are left, at most. -/
def Errand.rank (c : Policy) (s : Errand) : Nat :=
  (if s.onDisk then 1 else 2) + s.retriesLeft c + 3 * s.hopsLeft c + 2 * s.route.away.toNat

/-- How many attempts on the wire are left, at most. -/
def Errand.wireLeft (c : Policy) (s : Errand) : Nat :=
  (if s.onDisk then 0 else 1) + s.retriesLeft c + 2 * s.hopsLeft c + s.route.away.toNat

/-- How many attempts at files are left, at most. -/
def Errand.diskLeft (c : Policy) (s : Errand) : Nat :=
  1 + (s.hopsLeft c - 1) + if 0 < s.hopsLeft c then s.route.away.toNat else 0

theorem Errand.Goes.rank_lt {c : Policy} {s s' : Errand} {log : List Entry} (h : s.Goes c s' log) :
    s'.rank c < s.rank c := by
  have hdisk : ∀ s : Errand, 1 ≤ (if s.onDisk then 1 else 2) ∧ (if s.onDisk then 1 else 2) ≤ 2 := by
    intro s
    split <;> omega
  have haway' := s'.route.away.toNat_le
  have hd := hdisk s
  have hd' := hdisk s'
  unfold Errand.rank
  cases h with
  | hop answers repeats wire hops retries =>
    rw [wire, retries]
    simp only [Bool.false_eq_true, if_false]
    omega
  | file answers repeats wire disk hops retries away =>
    rw [wire, disk, hops, retries, away]
    simp
  | recover answers idempotent wire hops retries home =>
    rw [wire, hops, home]
    simp only [Bool.false_eq_true, if_false, Bool.toNat_false]
    omega
  | balancer answers idempotent hops left retries away home =>
    rw [hops, retries, away, home]
    simp only [Bool.toNat_false, Bool.toNat_true]
    omega

section

variable (parse : Text → Except Misdirected Parsed) (c : Policy) (world : Nat → Turn)

/-- `_run`. -/
def routing : Loop ({ s : Errand // s.Kept } ⊕ Except Thrown Bytes) Entry where
  turn
    | .inl s =>
        match h : s.1.turn parse c world with
        | (log, .inl s') => some (log, .inl ⟨s', (Errand.turn_goes s.2 h).1⟩)
        | (log, .inr result) => some (log, .inr result)
    | .inr _ => none
  measure
    | .inl s => s.1.rank c + 1
    | .inr _ => 0
  turn_lt := by
    intro s s' out h
    cases s with
    | inr result => cases h
    | inl s =>
      dsimp only at h
      split at h
      · next log s₁ hturn =>
        cases h
        have hlt := (Errand.turn_goes s.2 hturn).2.2.rank_lt
        dsimp only
        omega
      · cases h
        dsimp only
        omega

/-- `Router.execute`: what it writes down, and what comes of it. -/
def Router.execute (r : Router) (request : Ask) : List Entry × Option (Except Thrown Bytes) :=
  let start : Errand := { request := request, route := { home := r.url }, router := r }
  match (routing parse c world).run (.inl ⟨start, fun _ => rfl, fun _ => rfl⟩) with
  | (log, .inl _) => (log, none)
  | (log, .inr result) => (log, some result)

end

/-! ## What the log says -/

/-- What can be said of the log of a call that is at `s`. -/
structure Errand.Bounded (c : Policy) (s : Errand) (log : List Entry) : Prop where
  repeats : s.request.idempotent = false → ∀ a ∈ (puts log).dropLast, a.mayRepeat = true
  wire : log.count (.attempt false) ≤ s.wireLeft c
  disk : log.count (.attempt true) ≤ s.diskLeft c
  spaced : Session.spaced s.route.away log = true

/-- The log of the last turn. -/
theorem Errand.Bounded.last {parse : Text → Except Misdirected Parsed} {c : Policy} {world : Nat → Turn}
    {s : Errand} {log : List Entry} {result : Except Thrown Bytes}
    (h : s.turn parse c world = (log, .inr result)) : s.Bounded c log := by
  rcases turn_ends h with rfl | ⟨answers, more, rfl, hearlier, hmore⟩
  · exact ⟨fun _ a ha => (by cases ha), Nat.zero_le _, Nat.zero_le _, rfl⟩
  · have hputs : puts more = [] := by
      rcases hmore with rfl | ⟨rfl, -⟩ <;> rfl
    refine ⟨fun _ => ?_, ?_, ?_, ?_⟩
    · rw [puts_attempt, hputs, List.append_nil]
      exact hearlier
    · rw [count_attempt]
      unfold Errand.wireLeft
      rcases hmore with rfl | ⟨rfl, hwire⟩
      · cases s.onDisk
        · simp
          omega
        · simp
      · simp [hwire]
        omega
    · rw [count_attempt]
      unfold Errand.diskLeft
      rcases hmore with rfl | ⟨rfl, hwire⟩
      · cases s.onDisk
        · simp
        · simp
          omega
      · simp [hwire]
        omega
    · rw [spaced_attempt]
      rcases hmore with rfl | ⟨rfl, -⟩ <;> rfl

/-- All that was heard before a turn that a request was repeated after is to be repeated
after. -/
theorem puts_append_mayRepeat {answers more : List Answer} (h : ∀ a ∈ answers, a.mayRepeat = true)
    (hmore : ∀ a ∈ more.dropLast, a.mayRepeat = true) :
    ∀ a ∈ (answers ++ more).dropLast, a.mayRepeat = true := by
  intro a ha
  by_cases hnil : more = []
  · rw [hnil, List.append_nil] at ha
    exact h a (List.dropLast_subset _ ha)
  · rw [List.dropLast_append_of_ne_nil hnil] at ha
    rcases List.mem_append.mp ha with ha | ha
    · exact h a ha
    · exact hmore a ha

theorem puts_append (log more : List Entry) : puts (log ++ more) = puts log ++ puts more :=
  List.filterMap_append

/-- A step is no attempt. -/
theorem count_step {entry : Entry} (h : entry = .hop ∨ entry = .home) (disk : Bool) (more : List Entry) :
    List.count (.attempt disk) ([entry] ++ more) = List.count (.attempt disk) more := by
  rcases h with rfl | rfl <;> simp

/-- **A turn more.** -/
theorem Errand.Bounded.turn {c : Policy} {s s' : Errand} {log more : List Entry} (h : s.Goes c s' log)
    (hidem : s'.request.idempotent = s.request.idempotent) (hmore : s'.Bounded c more) :
    s.Bounded c (log ++ more) := by
  have haway' := s'.route.away.toNat_le
  have hwire := hmore.wire
  have hdisk := hmore.disk
  have hspaced := hmore.spaced
  have hon : (if s'.onDisk then 0 else 1) ≤ 1 := by split <;> omega
  unfold Errand.wireLeft at hwire
  unfold Errand.diskLeft at hdisk
  cases h with
  | hop answers repeats wire hops retries =>
    rw [List.append_assoc]
    refine ⟨fun hnot => ?_, ?_, ?_, ?_⟩
    · rw [puts_attempt]
      exact puts_append_mayRepeat repeats (hmore.repeats (hidem.trans hnot))
    · rw [count_attempt, count_step (.inl rfl), Errand.wireLeft, wire]
      simp only [if_true, Bool.false_eq_true, if_false]
      omega
    · rw [count_attempt, count_step (.inl rfl), Errand.diskLeft]
      simp only [Bool.false_eq_true, if_false]
      split at hdisk <;> split <;> omega
    · rw [spaced_attempt]
      exact spaced_mono hspaced
  | file answers repeats wire disk hops retries away =>
    refine ⟨fun hnot => ?_, ?_, ?_, ?_⟩
    · rw [puts_attempt]
      exact puts_append_mayRepeat repeats (hmore.repeats (hidem.trans hnot))
    · rw [disk, away, hops, retries] at hwire
      rw [count_attempt, Errand.wireLeft, wire]
      simp only [if_true, Bool.false_eq_true, if_false] at hwire ⊢
      omega
    · rw [away, hops] at hdisk
      rw [count_attempt, Errand.diskLeft]
      simp only [Bool.false_eq_true, if_false]
      omega
    · rw [spaced_attempt, ← away]
      exact hspaced
  | recover answers idempotent wire hops retries home =>
    rw [home, Bool.toNat_false] at hwire
    rw [home, Bool.toNat_false, ite_self] at hdisk
    rw [home] at hspaced
    rw [List.append_assoc]
    have hstep : ∀ disk, List.count (.attempt disk)
        ((if s.route.away then [Entry.home] else []) ++ more) = List.count (.attempt disk) more := by
      intro disk
      split
      · exact count_step (.inr rfl) disk more
      · rfl
    refine ⟨fun hnot => absurd (idempotent.symm.trans hnot) (by decide), ?_, ?_, ?_⟩
    · rw [count_attempt, hstep, Errand.wireLeft, wire]
      simp only [if_true, Bool.false_eq_true, if_false]
      omega
    · rw [count_attempt, hstep, Errand.diskLeft]
      simp only [Bool.false_eq_true, if_false]
      split <;> omega
    · rw [spaced_attempt]
      cases haway : s.route.away with
      | true => exact hspaced
      | false => exact hspaced
  | balancer answers idempotent hops left retries away home =>
    rw [home, Bool.toNat_false] at hwire
    rw [home, Bool.toNat_false, ite_self] at hdisk
    rw [home] at hspaced
    rw [List.append_assoc]
    refine ⟨fun hnot => absurd (idempotent.symm.trans hnot) (by decide), ?_, ?_, ?_⟩
    · rw [count_attempt, count_step (.inr rfl), Errand.wireLeft, away, Bool.toNat_true]
      cases s.onDisk
      · simp only [if_true, Bool.false_eq_true, if_false]
        omega
      · simp only [if_true, Bool.true_eq_false, if_false]
        omega
    · rw [count_attempt, count_step (.inr rfl), Errand.diskLeft, away, Bool.toNat_true, if_pos left]
      have hone : (if s.onDisk = true then 1 else 0) ≤ 1 := by split <;> omega
      omega
    · rw [spaced_attempt, away]
      exact hspaced

section

variable (parse : Text → Except Misdirected Parsed) (c : Policy) (world : Nat → Turn)

/-- **The log of a call**, from wherever it is. -/
theorem routing_bounded (s : { s : Errand // s.Kept }) :
    s.1.Bounded c ((routing parse c world).run (.inl s)).1 := by
  refine (routing parse c world).run_induction (P := fun x => ∀ s, x = .inl s →
    s.1.Bounded c ((routing parse c world).run (.inl s)).1) ?_ ?_ (.inl s) s rfl
  · intro x hx s hs
    subst hs
    simp only [routing] at hx
    split at hx <;> cases hx
  · intro x x' out hx ih s hs
    subst hs
    rw [(routing parse c world).run_of_some hx]
    simp only [routing] at hx
    split at hx
    · next log s' hturn =>
      obtain ⟨hkept, hidem, hgoes⟩ := Errand.turn_goes s.2 hturn
      cases hx
      exact Errand.Bounded.turn hgoes hidem (ih _ rfl)
    · next log result hturn =>
      cases hx
      have hend : ((routing parse c world).run (.inr result)).1 = [] := by
        rw [(routing parse c world).run_of_none rfl]
      rw [hend, List.append_nil]
      exact Errand.Bounded.last hturn

/-- A call that returns on the wire has been answered, and was in order to be repeated
each time before. -/
theorem routing_completed (hdisk : ∀ n data, (world n).disk ≠ .ok data) (s : { s : Errand // s.Kept }) :
    ∀ data, ((routing parse c world).run (.inl s)).2 = .inr (.ok data) →
      ∃ earlier, puts ((routing parse c world).run (.inl s)).1 = earlier ++ [.completed] := by
  refine (routing parse c world).run_induction (P := fun x => ∀ s, x = .inl s → ∀ data,
    ((routing parse c world).run (.inl s)).2 = .inr (.ok data) →
      ∃ earlier, puts ((routing parse c world).run (.inl s)).1 = earlier ++ [.completed]) ?_ ?_
    (.inl s) s rfl
  · intro x hx s hs
    subst hs
    simp only [routing] at hx
    split at hx <;> cases hx
  · intro x x' out hx ih s hs data hok
    subst hs
    rw [(routing parse c world).run_of_some hx] at hok ⊢
    simp only [routing] at hx
    split at hx
    · cases hx
      obtain ⟨earlier, hearlier⟩ := ih _ rfl data hok
      exact ⟨puts out ++ earlier, by rw [puts_append, hearlier, List.append_assoc]⟩
    · next log result hturn =>
      cases hx
      have hend := (routing parse c world).run_of_none (s := .inr result) rfl
      rw [hend] at hok ⊢
      obtain rfl := Sum.inr.inj hok
      rw [List.append_nil]
      exact Errand.turn_completed (hdisk _) hturn

variable {parse c world} in
/-- A request that is not idempotent and returns was answered, once. -/
theorem Router.execute_completed (hdisk : ∀ n data, (world n).disk ≠ .ok data) {r : Router} {request : Ask}
    (hnot : request.idempotent = false) {log : List Entry} {data : Bytes}
    (h : r.execute parse c world request = (log, some (.ok data))) :
    ∃ earlier, puts log = earlier ++ [.completed] ∧ ∀ a ∈ earlier, a.mayRepeat = true := by
  let start : { s : Errand // s.Kept } :=
    ⟨{ request := request, route := { home := r.url }, router := r }, fun _ => rfl, fun _ => rfl⟩
  have hbounded := routing_bounded parse c world start
  have hcompleted := routing_completed parse c world hdisk start data
  unfold Router.execute at h
  dsimp only at h
  cases hrun : (routing parse c world).run (.inl start) with
  | mk written last =>
    rw [hrun] at h hbounded hcompleted
    cases last with
    | inl s => cases h
    | inr result =>
      cases h
      obtain ⟨earlier, hearlier⟩ := hcompleted rfl
      refine ⟨earlier, hearlier, ?_⟩
      have hrepeats := hbounded.repeats hnot
      rw [hearlier, List.dropLast_concat] at hrepeats
      exact hrepeats

/-- **No blind replay, and an end.**  A call returns.  A request that is not idempotent is
put on the wire again only after a redirect or a `kXR_wait`; the attempts on the wire and at
files are bounded; and between two returns a redirect is counted. -/
theorem execute_bounded (r : Router) (request : Ask) :
    ∃ log result, r.execute parse c world request = (log, some result) ∧
      (request.idempotent = false → ∀ a ∈ (puts log).dropLast, a = .redirected ∨ a = .wait) ∧
      log.count (.attempt false) ≤ 1 + c.connectRetries.toNat + 2 * c.redirectLimit.toNat ∧
      log.count (.attempt true) ≤ max 1 c.redirectLimit.toNat ∧
      ∀ before between after, log = before ++ .home :: (between ++ .home :: after) → .hop ∈ between := by
  let start : { s : Errand // s.Kept } :=
    ⟨{ request := request, route := { home := r.url }, router := r }, fun _ => rfl, fun _ => rfl⟩
  have hbounded := routing_bounded parse c world start
  have hends := (routing parse c world).turn_run (.inl start)
  unfold Router.execute
  dsimp only
  cases hrun : (routing parse c world).run (.inl start) with
  | mk log last =>
    rw [hrun] at hbounded hends
    cases last with
    | inl s =>
      simp only [routing] at hends
      split at hends <;> cases hends
    | inr result =>
      refine ⟨log, result, rfl, ?_, ?_, ?_, ?_⟩
      · intro hnot a ha
        have hmay := hbounded.repeats hnot a ha
        cases a with
        | redirected => exact .inl rfl
        | wait => exact .inr rfl
        | completed => cases hmay
        | refused => cases hmay
        | unknown => cases hmay
      · have hwire := hbounded.wire
        have hon : (if start.1.onDisk then 0 else 1) ≤ 1 := by split <;> omega
        simp only [Errand.wireLeft, Errand.retriesLeft, Errand.hopsLeft, Route.away, start] at hwire hon
        simp only [Option.isSome_none, Bool.or_self, Bool.toNat_false] at hwire
        omega
      · have hdisk := hbounded.disk
        simp only [Errand.diskLeft, Errand.hopsLeft, Route.away, start] at hdisk
        simp only [Option.isSome_none, Bool.or_self, Bool.toNat_false] at hdisk
        split at hdisk <;> omega
      · intro before between after hlog
        have hspaced := hbounded.spaced
        rw [hlog] at hspaced
        exact spaced_hop_mem hspaced

end

/-- A manager sends a request to a data server, which sends it to a file of this machine,
which is not there; and so on. -/
def nowhere (n : Nat) : Turn :=
  if n % 3 = 0 then { dial := .ok (kXR_isManager, false), last := .redirected ⟨"ds".toList, 1094, []⟩ }
  else if n % 3 = 1 then { last := .redirected ⟨"file://localhost/data/x".toList, -1, []⟩ }
  else { disk := .error .ENOENT }

/-- The redirects to the file are not counted: with three redirects allowed, nine attempts
are made, three of them at the file. -/
theorem files_are_tried_again :
    ¬ ∀ (parse : Text → Except Misdirected Parsed) (c : Policy) (world : Nat → Turn) (r : Router)
      (request : Ask), ∃ log result, r.execute parse c world request = (log, some result) ∧
        log.count (.attempt false) + log.count (.attempt true) ≤
          1 + c.connectRetries.toNat + 2 * c.redirectLimit.toNat + 1 := by
  intro h
  obtain ⟨log, result, hrun, hle⟩ := h (fun _ => .error (.unparsed []))
    { connectRetries := 0, redirectLimit := 3, localRedirect := "always".toList } nowhere
    { url := { host := "manager".toList } } { idempotent := true, isOpen := true }
  have hlog : log.count (.attempt false) + log.count (.attempt true) = 9 := by
    have hfst : _ = log := congrArg Prod.fst hrun
    rw [← hfst]
    decide +kernel
  rw [hlog] at hle
  exact absurd hle (by decide)

end XrdClient.Session
