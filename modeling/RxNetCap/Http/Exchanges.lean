/-
Requests and responses one after another on a connection.

What a connection shows is a small machine of its own (`View`, `Move`), which
every step of the connection follows (`step_moves`). Nothing in it clears the
body, so a handler is given the bodies of all requests so far
(`bodies_chain`); and when the first response has been sent, the version of the
next ones is empty (`Spoken`, `version_stays_empty`). Of two exchanges the
second is thus never what it would be alone (`faithful_iff`).
-/
import Mathlib.Logic.Relation
import RxNetCap.Http.Chunks

set_option autoImplicit false

namespace RxNetCap.Http

open RxNetCap.Capture RxNetCap.Pdef Relation

/-! ## What a connection shows -/

/-- The version of the response line that is begun. -/
def Output.version? : Output → Option CStr
  | .invoked _ _ _ => none
  | .head res_head => some res_head._version

/-- What the handler is given. -/
def Output.request? : Output → Option (http_req_head_para × CStr)
  | .invoked _ req_head body => some (req_head, body)
  | .head _ => none

/-- The versions of the response lines so far. -/
def Conn.versions (c : Conn) : List CStr := c.outputs.filterMap Output.version?

/-- What handlers have been given so far. -/
def Conn.requests (c : Conn) : List (http_req_head_para × CStr) :=
  c.outputs.filterMap Output.request?

/-- The part of a connection that decides what it shows. -/
structure View where
  status : HTTP_STATUS
  version : CStr
  body : CStr
  versions : List CStr
  bodies : List CStr

def Conn.view (c : Conn) : View where
  status := c._http_status
  version := c._res_head_para._version
  body := c.recv_body_
  versions := c.versions
  bodies := c.requests.map Prod.snd

namespace View

/-- What can happen to it. -/
inductive Move : View → View → Prop where
  | read (v : View) (status : v.status = .RECV_HEAD) : Move v { v with status := .RECV_BODY }
  | append (v : View) (buf : CStr) : Move v { v with body := v.body ++ buf }
  | invoke (v : View) : Move v { v with bodies := v.bodies ++ [v.body] }
  | send (v : View) : Move v { v with status := .SEND_HEAD }
  | head (v : View) (status : v.status = .SEND_HEAD) :
    Move v { v with status := .SEND_BODY, versions := v.versions ++ [v.version] }
  | finish (v : View) (status : v.status = .SEND_BODY) :
    Move v { v with status := .RECV_HEAD, version := [] }

/-- Any number of moves. -/
def Moves : View → View → Prop := ReflTransGen Move

/-! ## Bodies -/

/-- Every invocation was given what the body began with since. -/
structure Grown (v : View) : Prop where
  chain : v.bodies.Pairwise (· <+: ·)
  below : ∀ body ∈ v.bodies, body <+: v.body

theorem Grown.move {v v' : View} (h : Grown v) (hmove : Move v v') : Grown v' := by
  cases hmove with
  | read status => exact ⟨h.chain, h.below⟩
  | append buf =>
    exact ⟨h.chain, fun body hbody => (h.below body hbody).trans (List.prefix_append _ _)⟩
  | invoke =>
    refine ⟨List.pairwise_append.mpr ⟨h.chain, List.pairwise_singleton _ _, ?_⟩, ?_⟩
    · intro body hbody last hlast
      rw [List.mem_singleton.mp hlast]
      exact h.below body hbody
    · intro body hbody
      rcases List.mem_append.mp hbody with hbody | hbody
      · exact h.below body hbody
      · rw [List.mem_singleton.mp hbody]
  | send => exact ⟨h.chain, h.below⟩
  | head status => exact ⟨h.chain, h.below⟩
  | finish status => exact ⟨h.chain, h.below⟩

theorem Grown.moves {v v' : View} (h : Grown v) (hmoves : Moves v v') : Grown v' := by
  induction hmoves with
  | refl => exact h
  | tail _ hmove ih => exact ih.move hmove

/-! ## Versions -/

/-- Up to the end of the first response its line is the first, with this
version. -/
def Spoken (version : CStr) (v : View) : Prop :=
  (v.versions = [] ∧ v.version = version ∧ v.status ≠ .SEND_BODY)
    ∨ (v.versions.head? = some version
      ∧ (v.version = [] ∨ v.status = .SEND_HEAD ∨ v.status = .SEND_BODY))

theorem Spoken.move {version : CStr} {v v' : View} (h : Spoken version v) (hmove : Move v v') :
    Spoken version v' := by
  cases hmove with
  | read status =>
    rcases h with ⟨hnone, hversion, -⟩ | ⟨hfirst, hsent⟩
    · exact Or.inl ⟨hnone, hversion, HTTP_STATUS.noConfusion⟩
    · refine Or.inr ⟨hfirst, Or.inl (hsent.resolve_right ?_)⟩
      rw [status]
      decide
  | append buf => exact h
  | invoke => exact h
  | send =>
    rcases h with ⟨hnone, hversion, -⟩ | ⟨hfirst, -⟩
    · exact Or.inl ⟨hnone, hversion, HTTP_STATUS.noConfusion⟩
    · exact Or.inr ⟨hfirst, Or.inr (Or.inl rfl)⟩
  | head status =>
    refine Or.inr ⟨?_, Or.inr (Or.inr rfl)⟩
    rcases h with ⟨hnone, hversion, -⟩ | ⟨hfirst, -⟩
    · simp only [hnone, hversion, List.nil_append, List.head?_cons]
    · simp only [List.head?_append, hfirst, Option.some_or]
  | finish status =>
    rcases h with ⟨-, -, hnot⟩ | ⟨hfirst, -⟩
    · exact absurd status hnot
    · exact Or.inr ⟨hfirst, Or.inl rfl⟩

theorem Spoken.moves {version : CStr} {v v' : View} (h : Spoken version v) (hmoves : Moves v v') :
    Spoken version v' := by
  induction hmoves with
  | refl => exact h
  | tail _ hmove ih => exact ih.move hmove

/-- After it the version is empty, and so is that of every line to come. -/
theorem version_stays_empty {v v' : View} (h : v.version = []) (hmoves : Moves v v') :
    v'.version = [] ∧ ∃ more, v'.versions = v.versions ++ more ∧ ∀ version ∈ more, version = [] := by
  induction hmoves with
  | refl => exact ⟨h, [], (List.append_nil _).symm, fun _ h => absurd h List.not_mem_nil⟩
  | @tail u _ _ hmove ih =>
    obtain ⟨hversion, more, hmore, hall⟩ := ih
    cases hmove with
    | read status => exact ⟨hversion, more, hmore, hall⟩
    | append buf => exact ⟨hversion, more, hmore, hall⟩
    | invoke => exact ⟨hversion, more, hmore, hall⟩
    | send => exact ⟨hversion, more, hmore, hall⟩
    | head status =>
      refine ⟨hversion, more ++ [u.version], ?_, fun version h => ?_⟩
      · simp only [hmore, List.append_assoc]
      · rcases List.mem_append.mp h with h | h
        · exact hall version h
        · rw [List.mem_singleton.mp h]
          exact hversion
    | finish status => exact ⟨rfl, more, hmore, hall⟩

end View

/-! ## What it shows follows the machine -/

section Moves

open View

variable {c c' : Conn} {world : RecvWorld} {buf : CStr} {result : Bool}

theorem get_send_buf_moves (c : Conn) : Moves c.view c.get_send_buf.2.view := by
  unfold Conn.get_send_buf
  split
  · exact .refl
  · exact .refl
  · next hstatus =>
    split
    · exact .refl
    · refine .single ?_
      have hversions : c.outputs.filterMap Output.version? ++ [c._res_head_para._version]
          = (c.outputs ++ [Output.head c._res_head_para]).filterMap Output.version? := by
        rw [List.filterMap_append]
        rfl
      have hrequests : c.outputs.filterMap Output.request?
          = (c.outputs ++ [Output.head c._res_head_para]).filterMap Output.request? := by
        rw [List.filterMap_append]
        exact (List.append_nil _).symm
      have hmove := Move.head c.view hstatus
      simp only [Conn.view, Conn.versions, Conn.requests] at hmove ⊢
      rw [hversions] at hmove
      rw [← hrequests]
      exact hmove
  · next hstatus => exact .single (Move.finish c.view hstatus)

theorem send_buf_moves (c : Conn) : Moves c.view c.send_buf.2.view := by
  unfold Conn.send_buf
  split
  · exact .refl
  · exact get_send_buf_moves c

theorem real_send_moves (accepts : List ℕ) (c : Conn) : Moves c.view (real_send accepts c).view := by
  induction accepts generalizing c with
  | nil =>
    have hnext := send_buf_moves c
    rw [real_send]
    split
    · next heq => rw [heq] at hnext; exact hnext
    · next heq => rw [heq] at hnext; exact hnext
  | cons accepted rest ih =>
    have hnext := send_buf_moves c
    rw [real_send]
    split
    · next heq => rw [heq] at hnext; exact hnext
    · next sent c' heq =>
      rw [heq] at hnext
      dsimp only
      split
      · exact hnext
      · split
        · exact hnext.trans (ih { c' with _p_send_buf := some _ })
        · exact hnext.trans (ih { c' with _p_send_buf := none })

theorem send_head_moves (accepts : List ℕ) (c : Conn) : Moves c.view (send_head accepts c).view := by
  have hsent := real_send_moves accepts { c with _http_status := .SEND_HEAD }
  exact ReflTransGen.head (Move.send c.view) hsent

theorem msg_recv_finish_moves (world : RecvWorld) (c : Conn) :
    Moves c.view (msg_recv_finish world c).view := by
  have hinvoked : Move c.view { c with
      _async_response_pending := false
      outputs := c.outputs ++ [Output.invoked c.received c._req_head_para c.recv_body_] }.view := by
    have hmove := Move.invoke c.view
    have hversions : c.outputs.filterMap Output.version?
        = (c.outputs ++ [Output.invoked c.received c._req_head_para c.recv_body_]).filterMap
          Output.version? := by
      rw [List.filterMap_append]
      exact (List.append_nil _).symm
    have hrequests : (c.outputs.filterMap Output.request?).map Prod.snd ++ [c.recv_body_]
        = ((c.outputs ++ [Output.invoked c.received c._req_head_para c.recv_body_]).filterMap
          Output.request?).map Prod.snd := by
      rw [List.filterMap_append, List.map_append]
      rfl
    simp only [Conn.view, Conn.versions, Conn.requests] at hmove ⊢
    rw [hrequests] at hmove
    rw [← hversions]
    exact hmove
  unfold msg_recv_finish
  split
  · next answer _ =>
    have hsent := send_head_moves world.accepts { c with
      _async_response_pending := false
      outputs := c.outputs ++ [Output.invoked c.received c._req_head_para c.recv_body_]
      _res_head_para := { c._res_head_para with
        _response_code := answer.status
        _response_str := answer.reason
        _headers := answer.headers }
      send_body_ := answer.body }
    exact ReflTransGen.head hinvoked hsent
  · exact .single hinvoked

theorem recv_finish_moves (world : RecvWorld) (c : Conn) :
    Moves c.view (recv_finish world c).view := by
  have hfinish := msg_recv_finish_moves world c
  unfold recv_finish
  dsimp only
  split
  · exact hfinish
  · exact hfinish.trans (send_head_moves _ _)

theorem append_body_moves (buf : CStr) (c : Conn) : Moves c.view (c.append_body buf).view :=
  .single (Move.append c.view buf)

/-- A body is appended to, or nothing happens. -/
theorem process_recv_body_moves (h : c.process_recv_body buf = some (c', result)) :
    Moves c.view c'.view := by
  have hhead : ∀ {c c' : Conn}, c.boundary_head buf = some (c', result) →
      Moves c.view c'.view := by
    intro c c' h
    unfold Conn.boundary_head at h
    dsimp only at h
    split at h
    · split at h
      · cases h
      · rw [← (Prod.mk.inj (Option.some.inj h)).1]
        exact .refl
    · split_ifs at h <;> rw [← (Prod.mk.inj (Option.some.inj h)).1]
      all_goals first | exact .refl | exact append_body_moves _ _
  have hbody : ∀ {c c' : Conn}, c.boundary_body buf = some (c', result) →
      Moves c.view c'.view := by
    intro c c' h
    unfold Conn.boundary_body at h
    dsimp only at h
    split_ifs at h <;> (rw [← (Prod.mk.inj (Option.some.inj h)).1]; exact append_body_moves _ _)
  unfold Conn.process_recv_body at h
  split at h
  · rw [← (Prod.mk.inj (Option.some.inj h)).1]
    exact .refl
  · split at h
    · rw [← (Prod.mk.inj (Option.some.inj h)).1]
      exact append_body_moves buf c
    · unfold Conn.get_boundary at h
      split at h
      · cases h
      · dsimp only at h
        split at h
        · have hmoves := hhead h
          exact hmoves
        · have hmoves := hbody h
          exact hmoves
        · rw [← (Prod.mk.inj (Option.some.inj h)).1]
          exact .refl

theorem body_part_moves {part : CStr} (h : c.body_part buf = some (part, c')) :
    Moves c.view c'.view := by
  unfold Conn.body_part at h
  split at h
  · next hhead =>
    unfold Conn.check_head_finish at h
    split at h
    · split at h
      · cases h
      · rw [← (Prod.mk.inj (Option.some.inj h)).2]
        exact .refl
    · obtain ⟨head, -, heq⟩ := Option.map_eq_some_iff.mp h
      rw [← (Prod.mk.inj heq).2]
      exact .single (Move.read c.view hhead.1)
  · rw [← (Prod.mk.inj (Option.some.inj h)).2]
    exact .refl

theorem process_recv_buf_moves {p_ret : ℕ} (h : process_recv_buf world buf c = some (c', p_ret)) :
    Moves c.view c'.view := by
  unfold process_recv_buf at h
  split at h
  · cases h
  · obtain ⟨⟨part, c₁⟩, hpart, h⟩ := Option.bind_eq_some_iff.mp h
    have hread := body_part_moves hpart
    dsimp only at h
    split at h
    · obtain ⟨⟨c₂, result⟩, hbody, h⟩ := Option.bind_eq_some_iff.mp h
      have htaken := hread.trans (process_recv_body_moves hbody)
      rw [← (Prod.mk.inj (Option.some.inj h)).1]
      dsimp only
      split
      · exact htaken.trans (recv_finish_moves world c₂)
      · exact htaken
    · rw [← (Prod.mk.inj (Option.some.inj h)).1]
      exact hread

/-- **Every step** of a connection is some moves of what it shows. -/
theorem step_moves (c : Conn) (event : Event) : Moves c.view (step c event).view := by
  unfold step
  split
  · exact .refl
  · cases event with
    | recv chunk world =>
      unfold real_recv
      dsimp only
      split
      · split
        · exact .refl
        · next c' p_ret hprocess =>
          have hmoves := process_recv_buf_moves hprocess
          exact hmoves
      · exact .refl
    | writable accepts => exact real_send_moves accepts c
    | reply answer accepts =>
      have hsent := send_head_moves accepts { c with
        send_body_ := answer.body
        _res_head_para := fill_response_headers answer c._res_head_para
        _async_response_pending := false }
      exact hsent

theorem run_moves {events : List Event} (run : Run c events c') : Moves c.view c'.view := by
  induction run with
  | start => exact .refl
  | step run possible ih => exact ih.trans (step_moves _ _)

/-- **Bodies** are never cleared: the one that a handler is given begins with
those that were given before. -/
theorem bodies_chain {events : List Event} (run : Run {} events c) :
    (c.requests.map Prod.snd).Pairwise (· <+: ·) := by
  have hnone : Grown ({} : Conn).view := ⟨List.Pairwise.nil, fun _ h => absurd h List.not_mem_nil⟩
  have hgrown := hnone.moves (run_moves run)
  exact hgrown.chain

end Moves

/-! ## Exchanges -/

/-- A request and all that happens until the next. -/
structure Exchange where
  before : Conn
  events : List Event
  after : Conn

namespace Exchange

variable (x : Exchange)

/-- What handlers are given in it. -/
def requests : List (http_req_head_para × CStr) :=
  x.after.requests.drop x.before.requests.length

/-- The version in the line of the response. -/
def version : Option CStr := (x.after.versions.drop x.before.versions.length).head?

/-- The same on a connection of its own. -/
def alone : Exchange where
  before := {}
  events := x.events
  after := x.events.foldl step {}

end Exchange

/-- The response has been sent, with nothing of it left. -/
structure Conn.Ready (c : Conn) : Prop where
  not_closed : c.closed = false
  status : c._http_status = .RECV_HEAD
  received : c._recv_buf = []
  sent : c._p_send_buf.getD [] = []
  not_pending : c._async_response_pending = false

/-- Exchanges on a connection, each with the bytes of a request and a response,
and after the response before has been sent. -/
inductive Exchanges : List Exchange → Conn → Prop where
  | none : Exchanges [] {}
  | next {rounds : List Exchange} {c c' : Conn} {events : List Event}
      (rounds_before : Exchanges rounds c) (ready : c.Ready) (q : Post) (run : Run c events c')
      (bytes : arrived events = q.bytes)
      (answered : (Exchange.version ⟨c, events, c'⟩).isSome = true) :
      Exchanges (rounds ++ [⟨c, events, c'⟩]) c'

/-- Handlers are given in each what they would be given if it were the only
exchange, and the line of its response has the version of the first. -/
def Faithful (rounds : List Exchange) : Prop :=
  ∀ x ∈ rounds, x.requests = x.alone.requests
    ∧ ∀ first ∈ rounds.head?, x.version = first.version

theorem run_foldl {events : List Event} {c c' : Conn} (run : Run c events c') :
    c' = events.foldl step c := by
  induction run with
  | start => rfl
  | step run possible ih => rw [List.foldl_append, ← ih]; rfl

/-- The first response line has the version that a connection begins with, and
the next an empty one. -/
theorem exchanges_versions {rounds : List Exchange} {c : Conn} (h : Exchanges rounds c) :
    (rounds = [] ∧ c = {})
      ∨ (View.Spoken "HTTP/1.1".toList c.view ∧ c.versions ≠ []
        ∧ (∃ first, rounds.head? = some first ∧ first.version = some "HTTP/1.1".toList)
        ∧ (rounds.length ≤ 1 ∨ ∃ x ∈ rounds, x.version = some [])) := by
  induction h with
  | none => exact Or.inl ⟨rfl, rfl⟩
  | @next rounds c c' events rounds_before ready q run bytes answered ih =>
    right
    have hmoves := run_moves run
    rcases ih with ⟨rfl, rfl⟩ | ⟨hspoken, hversions, hfirst, -⟩
    · have hfresh : View.Spoken "HTTP/1.1".toList ({} : Conn).view :=
        Or.inl ⟨rfl, rfl, HTTP_STATUS.noConfusion⟩
      have hspoken := hfresh.moves hmoves
      have hsome : c'.versions ≠ [] := by
        intro hnil
        rw [Exchange.version, hnil, List.drop_nil] at answered
        cases answered
      have hversion : c'.versions.head? = some "HTTP/1.1".toList := by
        rcases hspoken with ⟨hnil, -⟩ | ⟨hfirst, -⟩
        · exact absurd hnil hsome
        · exact hfirst
      exact ⟨hspoken, hsome, ⟨_, rfl, hversion⟩, Or.inl (Nat.le_refl 1)⟩
    · have hempty : c.view.version = [] := by
        rcases hspoken with ⟨hnil, -⟩ | ⟨-, hempty | hsending | hsending⟩
        · exact absurd hnil hversions
        · exact hempty
        · rw [show c.view.status = .RECV_HEAD from ready.status] at hsending
          cases hsending
        · rw [show c.view.status = .RECV_HEAD from ready.status] at hsending
          cases hsending
      obtain ⟨-, more, hmore, hall⟩ := View.version_stays_empty hempty hmoves
      have hlater : c'.versions = c.versions ++ more := hmore
      have hversion : (Exchange.version ⟨c, events, c'⟩) = some [] := by
        rw [Exchange.version, hlater, List.drop_left] at answered ⊢
        obtain ⟨version, hhead⟩ := Option.isSome_iff_exists.mp answered
        rw [hhead, hall version (List.mem_of_mem_head? hhead)]
      obtain ⟨first, hhead, hhttp⟩ := hfirst
      refine ⟨hspoken.moves hmoves, ?_, ⟨first, ?_, hhttp⟩, Or.inr ⟨_, ?_, hversion⟩⟩
      · rw [hlater]
        exact fun hnil => hversions (List.append_eq_nil_iff.mp hnil).1
      · rw [List.head?_append, hhead, Option.some_or]
      · exact List.mem_append_right _ (List.mem_singleton_self _)

/-- **Exchanges** do not interfere exactly when there is only one. -/
theorem faithful_iff {rounds : List Exchange} {c : Conn} (h : Exchanges rounds c) :
    Faithful rounds ↔ rounds.length ≤ 1 := by
  constructor
  · intro hfaithful
    rcases exchanges_versions h with ⟨rfl, -⟩ | ⟨-, -, ⟨first, hhead, hhttp⟩, hone | ⟨x, hx, hempty⟩⟩
    · exact Nat.zero_le 1
    · exact hone
    · have hsame := (hfaithful x hx).2 first hhead
      rw [hempty, hhttp] at hsame
      cases hsame
  · intro hone
    cases h with
    | none => exact fun x hx => absurd hx List.not_mem_nil
    | @next before c c' events rounds_before ready q run bytes answered =>
      have hnil : before = [] := by
        rw [List.length_append, List.length_singleton] at hone
        exact List.eq_nil_of_length_eq_zero (by omega)
      subst hnil
      have hstart : c = {} := by
        rcases exchanges_versions rounds_before with ⟨-, hstart⟩ | ⟨-, -, ⟨_, hhead, -⟩, -⟩
        · exact hstart
        · cases hhead
      subst hstart
      intro x hx
      rw [List.nil_append, List.mem_singleton] at hx
      subst hx
      refine ⟨?_, fun first hfirst => ?_⟩
      · rw [Exchange.requests, Exchange.alone, Exchange.requests, run_foldl run]
      · rw [← Option.some.inj hfirst]

/-- A small request whose handler answers later. -/
def small_exchange (c : Conn) : Exchange where
  before := c
  events := [.recv small_post.bytes {}, .reply { body := "ok".toList } [1000, 1000]]
  after := step (step c (.recv small_post.bytes {})) (.reply { body := "ok".toList } [1000, 1000])

theorem small_exchange_once : Exchanges [small_exchange {}] (small_exchange {}).after :=
  .next .none (by constructor <;> decide +kernel) small_post.toPost
    (((Run.start {}).step (by decide +kernel)).step (by decide +kernel))
    (by decide +kernel) (by decide +kernel)

theorem faithful_iff_once :
    Faithful [small_exchange {}] ↔ [small_exchange {}].length ≤ 1 :=
  faithful_iff small_exchange_once

/-- The same request again: its handler is given the first body as well, and the
version of the response is missing. -/
theorem second_request : ∃ first second c, Exchanges [first, second] c
    ∧ first.requests.map Prod.snd = ["abc".toList] ∧ first.version = some "HTTP/1.1".toList
    ∧ second.requests.map Prod.snd = ["abcabc".toList] ∧ second.version = some []
    ∧ ¬ Faithful [first, second] := by
  have htwice : Exchanges [small_exchange {}, small_exchange (small_exchange {}).after]
      (small_exchange (small_exchange {}).after).after :=
    .next small_exchange_once (by constructor <;> decide +kernel) small_post.toPost
      (((Run.start _).step (by decide +kernel)).step (by decide +kernel))
      (by decide +kernel) (by decide +kernel)
  refine ⟨_, _, _, htwice, by decide +kernel, by decide +kernel, by decide +kernel,
    by decide +kernel, fun hfaithful => ?_⟩
  have hsame := (hfaithful _ (List.mem_cons_of_mem _ List.mem_cons_self)).2 _ rfl
  exact absurd hsame (by decide +kernel)

end RxNetCap.Http
