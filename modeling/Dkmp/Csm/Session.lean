import Dkmp.Csm.Client
import Dkmp.Csd.Serve
import Dkmp.Machine.Shared
import Dkmp.Machine.Trace

/-! # Clients and their daemon

Any number of csm clients talk to one daemon over a network that may lose and reorder
datagrams, but does not double them, while the other threads of the daemon use the
database. All clients together see one sequential execution of the store: each of them
its own commands, in the order it gave them, with the answers it prints.
-/

namespace Dkmp.Csm

open Machine Csdb Csp Csd Csc

/-! ## The system -/

structure Site (ι : Type) where
  db : Database
  cli : ι → Cli
  requests : ι → List Bytes
  replies : ι → List Bytes

inductive SiteAction (ι : Type) where
  | send (i : ι)
  | serve (i : ι) (datagram resp buf : Bytes) (clock : Nat → Int)
  | receive (i : ι) (datagram : Bytes)
  | loseRequest (i : ι) (datagram : Bytes)
  | loseReply (i : ι) (datagram : Bytes)
  | call (op : Op) (now : Int)

section Step

variable {ι : Type} [DecidableEq ι]

def Site.setCli (s : Site ι) (i : ι) (c : Cli) : Site ι :=
  { s with cli := fun j => if j = i then c else s.cli j }

def Site.setRequests (s : Site ι) (i : ι) (ds : List Bytes) : Site ι :=
  { s with requests := fun j => if j = i then ds else s.requests j }

def Site.setReplies (s : Site ι) (i : ι) (ds : List Bytes) : Site ι :=
  { s with replies := fun j => if j = i then ds else s.replies j }

/-- A step of a client, of the packet thread, of the network, or of another thread of the
daemon. The arrays of the packet thread have the sizes the source gives them. -/
def siteStep (s : Site ι) : SiteAction ι → Exec (Site ι)
  | .send i =>
      if (s.cli i).phase = .reading then do
        let (c, out) ← csdCliSend (s.cli i)
        .ok ((s.setCli i c).setRequests i (s.requests i ++ out.toList))
      else .error .blocked
  | .serve i datagram resp buf clock =>
      if (s.requests i).contains datagram ∧ resp.length = cspMaxpacketSize ∧ buf.length = maxline then do
        let (reply, db) ← csReceivePackets .linear clock resp buf datagram s.db
        .ok ({ s.setRequests i ((s.requests i).erase datagram) with db := db }.setReplies i
          (s.replies i ++ reply.toList))
      else .error .blocked
  | .receive i datagram =>
      if (s.cli i).phase = .waiting ∧ (s.replies i).contains datagram then do
        let c ← csdCliReceive (s.cli i) datagram
        .ok ((s.setCli i c).setReplies i ((s.replies i).erase datagram))
      else .error .blocked
  | .loseRequest i datagram =>
      if (s.requests i).contains datagram then .ok (s.setRequests i ((s.requests i).erase datagram))
      else .error .blocked
  | .loseReply i datagram =>
      if (s.replies i).contains datagram then .ok (s.setReplies i ((s.replies i).erase datagram))
      else .error .blocked
  | .call op now => do
      let (_, db) ← op.call.exec .linear now s.db
      .ok { s with db := db }

end Step

/-! ## What a client shows -/

/-- One pass of a client: a line that is no command, or a command and its answer. -/
inductive Shown where
  | invalid
  | answered (command : Command) (answer : Csd.Answer)

def Shown.text : Shown → CStr
  | .invalid => invalidText
  | .answered _ answer => answerText answer.cut ++ promptText

def Shown.call : Shown → Option (Command × Csd.Answer)
  | .invalid => none
  | .answered command answer => some (command, answer)

def Shown.To (shown : Shown) (reaction : Exec Reaction) : Prop :=
  match shown with
  | .invalid => reaction = .ok .invalid
  | .answered command _ => reaction = .ok (.send command)

/-- The passes that the lines of an input lead to, from the words and the input at first
to those that are left. -/
inductive Session (words₀ : Words) (input₀ : CStr) : Words → CStr → List Shown → Prop where
  | start : Session words₀ input₀ words₀ input₀ []
  | line (words : Words) (input : CStr) (shown : List Shown) (line rest : CStr) (next : Shown) :
      Session words₀ input₀ words input shown → fgets (maxline - 1) input = (line, rest) → line ≠ [] →
      next.To (words.scan (line.takeWhile (· ≠ newline))).reaction →
      Session words₀ input₀ (words.scan (line.takeWhile (· ≠ newline))) rest (shown ++ [next])

/-! ## The store and its clients -/

/-- The store carries out a command as any request that the command may be decoded as. -/
def storeBehaviour : Behaviour Command Csd.Answer Op Store where
  call s command answer s' := ∃ request, command.Means request ∧ request.Does s answer s'
  own s op s' := ∃ result, op.spec s = .ok (result, s')

abbrev Ledger (ι : Type) := Shared ι Command Csd.Answer Op Store

inductive Stands (c : Cli) (words : Words) (input : CStr) (requests replies : List Bytes) :
    Standing Command Csd.Answer → Prop where
  | reading : c.phase = .reading → c.Sized → c.Wiped → c.words = words → c.input = input →
      requests = [] → replies = [] → Stands c words input requests replies .idle
  | asked (line : CStr) (command : Command) : c.phase = .waiting → c.Sized → c.Wiped →
      fgets (maxline - 1) input = (line, c.input) → line ≠ [] →
      c.words = words.scan (line.takeWhile (· ≠ newline)) → c.words.reaction = .ok (.send command) →
      (requests = [] ∨ ∃ d, requests = [d] ∧ command.Packed d) → replies = [] →
      Stands c words input requests replies (.asked command)
  | served (line : CStr) (command : Command) (answer : Csd.Answer) : c.phase = .waiting → c.Sized → c.Wiped →
      fgets (maxline - 1) input = (line, c.input) → line ≠ [] →
      c.words = words.scan (line.takeWhile (· ≠ newline)) → c.words.reaction = .ok (.send command) →
      answer.cut.bytes.length ≤ cspMaxpacketSize → requests = [] →
      (replies = [] ∨ replies = [answer.cut.bytes]) →
      Stands c words input requests replies (.served command answer)
  | ended : c.phase = .ended → requests = [] → replies = [] → Stands c words input requests replies .idle

def Follows (c₀ c : Cli) (requests replies : List Bytes) (standing : Standing Command Csd.Answer)
    (returned : List (Command × Csd.Answer)) : Prop :=
  ∃ words input shown, Session c₀.words c₀.input words input shown ∧
    c.stdout = c₀.stdout ++ shown.flatMap Shown.text ∧ shown.filterMap Shown.call = returned ∧
    Stands c words input requests replies standing

structure Serves {ι : Type} (s₀ s : Site ι) (a : Ledger ι) : Prop where
  store : InState s.db a.object
  client : ∀ i, Follows (s₀.cli i) (s.cli i) (s.requests i) (s.replies i) (a.standing i) (a.returned i)

/-! ## Every step is one of the store -/

section Steps

variable {ι : Type} [DecidableEq ι] {s₀ s s' : Site ι} {a : Ledger ι}

def SiteAction.call? : SiteAction ι → Option Op
  | .call op _ => some op
  | _ => none

/-- The step is matched by at most one move of the ledger. -/
def Matched (s₀ s' : Site ι) (a : Ledger ι) (act : SiteAction ι) : Prop :=
  ∃ a', Shared.Moves storeBehaviour a a' ∧ Serves s₀ s' a' ∧
    a'.order.filterMap Entry.own? = a.order.filterMap Entry.own? ++ act.call?.toList

theorem Serves.client_at (h : Serves s₀ s a) {i : ι} {c : Cli} {requests replies : List Bytes}
    {standing : Standing Command Csd.Answer} {returned : List (Command × Csd.Answer)}
    (hnew : Follows (s₀.cli i) c requests replies standing returned) (j : ι) :
    Follows (s₀.cli j) (if j = i then c else s.cli j) (if j = i then requests else s.requests j)
      (if j = i then replies else s.replies j) (if j = i then standing else a.standing j)
      (if j = i then returned else a.returned j) := by
  by_cases hj : j = i
  · subst hj
    simpa using hnew
  · simpa [hj] using h.client j

theorem matched_send (h : Serves s₀ s a) {i : ι} (hstep : siteStep s (.send i) = .ok s') :
    Matched s₀ s' a (.send i) := by
  rw [siteStep] at hstep
  split at hstep
  next hphase =>
    obtain ⟨⟨c, out⟩, hsend, hret⟩ := bind_eq_ok hstep
    cases hret
    obtain ⟨words, input, shown, hsession, hstdout, hreturned, hstands⟩ := h.client i
    generalize hidle : a.standing i = standing at hstands
    cases hstands with
    | asked line command hwaiting => exact absurd (hphase.symm.trans hwaiting) (by decide)
    | served line command answer hwaiting => exact absurd (hphase.symm.trans hwaiting) (by decide)
    | ended hended => exact absurd (hphase.symm.trans hended) (by decide)
    | reading hreading hsized hwiped hwords hinput hrequests hreplies =>
    have hkeep : ∀ {c' : Cli} {requests : List Bytes},
        Follows (s₀.cli i) c' requests (s.replies i) .idle (a.returned i) →
        Serves s₀ ((s.setCli i c').setRequests i requests) a := by
      intro c' requests hfollows
      refine ⟨h.store, fun j => ?_⟩
      have hj := h.client_at hfollows j
      by_cases hji : j = i
      · subst hji
        simpa [Site.setCli, Site.setRequests, hidle] using hj
      · simpa [Site.setCli, Site.setRequests, hji] using hj
    have hno : s.requests i ++ (none : Option Bytes).toList = [] := by simpa using hrequests
    rcases csdCliSend_cases hsized hsend with ⟨rfl, rfl⟩ | ⟨line, htook, hcases⟩
    · rw [hno]
      exact ⟨a, .refl, hkeep ⟨words, input, shown, hsession, hstdout, hreturned, .ended rfl rfl hreplies⟩, by simp [SiteAction.call?]⟩
    · have hread : fgets (maxline - 1) input = (line, c.input) := hinput ▸ htook.read
      have hscan : c.words = words.scan (line.takeWhile (· ≠ newline)) := hwords ▸ htook.words
      rcases hcases with ⟨rfl, -, hended, hout⟩ | ⟨rfl, hreaction, hreads, hout, hzeros⟩ |
        ⟨command, d, rfl, hreaction, hpacked, hwaits, hout, hrecv⟩
      · rw [hno]
        refine ⟨a, .refl, hkeep ⟨words, input, shown, hsession, hout.trans hstdout, hreturned, .ended hended rfl hreplies⟩, ?_⟩
        simp [SiteAction.call?]
      · rw [hno]
        refine ⟨a, .refl, hkeep ⟨_, _, shown ++ [.invalid], .line words input shown line c.input .invalid hsession
          hread htook.nonempty (hscan ▸ hreaction), ?_, ?_, .reading (hreads.trans hphase) htook.sized ?_ hscan rfl rfl
          hreplies⟩, ?_⟩
        · rw [hout, hstdout, List.flatMap_append, List.append_assoc]
          simp [Shown.text]
        · rw [List.filterMap_append, hreturned]
          exact List.append_nil _
        · exact hwiped.imp (htook.respData.trans ·) fun hfive => ⟨htook.respData.trans hfive.1, hzeros⟩
        · simp [SiteAction.call?]
      · refine ⟨a.stand i (.asked command), .single (.ask a i command hidle), ⟨h.store, fun j => ?_⟩, ?_⟩
        · have hfollows : Follows (s₀.cli i) c [d] (s.replies i) (.asked command) (a.returned i) :=
            ⟨words, input, shown, hsession, hout.trans hstdout, hreturned, .asked line command hwaits htook.sized
              (hwiped.imp (htook.respData.trans ·) fun hfive => ⟨htook.respData.trans hfive.1, hrecv.trans hfive.2⟩)
              hread htook.nonempty hscan hreaction (.inr ⟨d, rfl, hpacked⟩) hreplies⟩
          have hj := h.client_at hfollows j
          by_cases hji : j = i
          · subst hji
            simpa [Site.setCli, Site.setRequests, Shared.stand, hrequests] using hj
          · simpa [Site.setCli, Site.setRequests, Shared.stand, hji] using hj
        · simp [SiteAction.call?, Shared.stand]
  next => cases hstep

theorem matched_serve (h : Serves s₀ s a) {i : ι} {d resp buf : Bytes} {clock : Nat → Int}
    (hstep : siteStep s (.serve i d resp buf clock) = .ok s') : Matched s₀ s' a (.serve i d resp buf clock) := by
  rw [siteStep] at hstep
  split at hstep
  next hguard =>
    obtain ⟨hmem, hresp, hbuf⟩ := hguard
    obtain ⟨⟨reply, db⟩, hserve, hret⟩ := bind_eq_ok hstep
    cases hret
    obtain ⟨words, input, shown, hsession, hstdout, hreturned, hstands⟩ := h.client i
    generalize hasked : a.standing i = standing at hstands
    cases hstands with
    | reading _ _ _ _ _ hnone => simp [hnone] at hmem
    | served _ _ _ _ _ _ _ _ _ _ _ hnone => simp [hnone] at hmem
    | ended _ hnone => simp [hnone] at hmem
    | asked line command hwaiting hsized hwiped hread hnonempty hwords hreaction hrequests hreplies =>
    rcases hrequests with hnone | ⟨d', hd', hpacked⟩
    · simp [hnone] at hmem
    obtain rfl : d = d' := by simpa [hd'] using hmem
    obtain ⟨request, answer, x, hrequest, hdoes, hstate, rfl, hlength⟩ :=
      csReceivePackets_does h.store hresp hbuf hpacked.header hserve
    have hcall : storeBehaviour.call a.object command answer x := ⟨request, hpacked.means buf request hbuf hrequest, hdoes⟩
    refine ⟨_, .single (.serve a i command answer x hasked hcall), ⟨hstate, fun j => ?_⟩, ?_⟩
    · have hfollows : Follows (s₀.cli i) (s.cli i) [] [answer.cut.bytes] (.served command answer) (a.returned i) :=
        ⟨words, input, shown, hsession, hstdout, hreturned, .served line command answer hwaiting hsized hwiped hread
          hnonempty hwords hreaction hlength rfl (.inr rfl)⟩
      have hj := h.client_at hfollows j
      by_cases hji : j = i
      · subst hji
        simpa [Site.setReplies, Site.setRequests, Shared.stand, hd', hreplies] using hj
      · simpa [Site.setReplies, Site.setRequests, Shared.stand, hji] using hj
    · simp [SiteAction.call?, Entry.own?]
  next => cases hstep

theorem matched_receive (h : Serves s₀ s a) {i : ι} {d : Bytes} (hstep : siteStep s (.receive i d) = .ok s') :
    Matched s₀ s' a (.receive i d) := by
  rw [siteStep] at hstep
  split at hstep
  next hguard =>
    obtain ⟨hphase, hmem⟩ := hguard
    obtain ⟨c, hreceive, hret⟩ := bind_eq_ok hstep
    cases hret
    obtain ⟨words, input, shown, hsession, hstdout, hreturned, hstands⟩ := h.client i
    generalize hserved : a.standing i = standing at hstands
    cases hstands with
    | reading _ _ _ _ _ _ hnone => simp [hnone] at hmem
    | asked _ _ _ _ _ _ _ _ _ _ hnone => simp [hnone] at hmem
    | ended _ _ hnone => simp [hnone] at hmem
    | served line command answer hwaiting hsized hwiped hread hnonempty hwords hreaction hlength hrequests hreplies =>
    rcases hreplies with hnone | hreply
    · simp [hnone] at hmem
    obtain rfl : d = answer.cut.bytes := by simpa [hreply] using hmem
    obtain ⟨respData, hresp, rfl⟩ := csdCliReceive_answer hsized hwiped hlength hreceive
    refine ⟨a.give i command answer, .single (.give a i command answer hserved), ⟨h.store, fun j => ?_⟩, ?_⟩
    · have hfollows : Follows (s₀.cli i) ((s.cli i).told (answerText answer.cut) respData) [] [] .idle
          (a.returned i ++ [(command, answer)]) := by
        refine ⟨_, _, shown ++ [.answered command answer], .line words input shown line (s.cli i).input
          (.answered command answer) hsession hread hnonempty (hwords ▸ hreaction), ?_, ?_,
          .reading rfl ⟨hsized.type, hsized.key, hsized.value, List.length_replicate, List.length_replicate⟩
            (hresp.imp_right fun hfive => ⟨hfive, rfl⟩) hwords rfl rfl rfl⟩
        · show ((s.cli i).stdout ++ answerText answer.cut) ++ promptText = _
          rw [hstdout, List.flatMap_append]
          simp [Shown.text]
        · rw [List.filterMap_append, hreturned]
          rfl
      have hj := h.client_at hfollows j
      by_cases hji : j = i
      · subst hji
        simpa [Site.setCli, Site.setReplies, Shared.give, Shared.stand, hreply, hrequests] using hj
      · simpa [Site.setCli, Site.setReplies, Shared.give, Shared.stand, hji] using hj
    · simp [SiteAction.call?, Shared.give, Shared.stand]
  next => cases hstep

/-- A client that has lost its datagram goes on waiting. -/
theorem Stands.loseRequest {c : Cli} {words : Words} {input : CStr} {requests replies : List Bytes}
    {standing : Standing Command Csd.Answer} (h : Stands c words input requests replies standing) {d : Bytes}
    (hd : d ∈ requests) : Stands c words input (requests.erase d) replies standing := by
  cases h with
  | reading _ _ _ _ _ hnone => simp [hnone] at hd
  | served _ _ _ _ _ _ _ _ _ _ _ hnone => simp [hnone] at hd
  | ended _ hnone => simp [hnone] at hd
  | asked line command hwaiting hsized hwiped hread hnonempty hwords hreaction hrequests hreplies =>
      rcases hrequests with hnone | ⟨d', hd', -⟩
      · simp [hnone] at hd
      · obtain rfl : d = d' := by simpa [hd'] using hd
        exact .asked line command hwaiting hsized hwiped hread hnonempty hwords hreaction (.inl (by simp [hd'])) hreplies

theorem Stands.loseReply {c : Cli} {words : Words} {input : CStr} {requests replies : List Bytes}
    {standing : Standing Command Csd.Answer} (h : Stands c words input requests replies standing) {d : Bytes}
    (hd : d ∈ replies) : Stands c words input requests (replies.erase d) standing := by
  cases h with
  | reading _ _ _ _ _ _ hnone => simp [hnone] at hd
  | asked _ _ _ _ _ _ _ _ _ _ hnone => simp [hnone] at hd
  | ended _ _ hnone => simp [hnone] at hd
  | served line command answer hwaiting hsized hwiped hread hnonempty hwords hreaction hlength hrequests hreplies =>
      rcases hreplies with hnone | hreply
      · simp [hnone] at hd
      · obtain rfl : d = answer.cut.bytes := by simpa [hreply] using hd
        exact .served line command answer hwaiting hsized hwiped hread hnonempty hwords hreaction hlength hrequests
          (.inl (by simp [hreply]))

theorem matched_loseRequest (h : Serves s₀ s a) {i : ι} {d : Bytes} (hstep : siteStep s (.loseRequest i d) = .ok s') :
    Matched s₀ s' a (.loseRequest i d) := by
  rw [siteStep] at hstep
  split at hstep
  next hmem =>
    cases hstep
    obtain ⟨words, input, shown, hsession, hstdout, hreturned, hstands⟩ := h.client i
    refine ⟨a, .refl, ⟨h.store, fun j => ?_⟩, by simp [SiteAction.call?]⟩
    have hj := h.client_at ⟨words, input, shown, hsession, hstdout, hreturned, hstands.loseRequest (List.contains_iff_mem.mp hmem)⟩ j
    by_cases hji : j = i
    · subst hji
      simpa [Site.setRequests] using hj
    · simpa [Site.setRequests, hji] using hj
  next => cases hstep

theorem matched_loseReply (h : Serves s₀ s a) {i : ι} {d : Bytes} (hstep : siteStep s (.loseReply i d) = .ok s') :
    Matched s₀ s' a (.loseReply i d) := by
  rw [siteStep] at hstep
  split at hstep
  next hmem =>
    cases hstep
    obtain ⟨words, input, shown, hsession, hstdout, hreturned, hstands⟩ := h.client i
    refine ⟨a, .refl, ⟨h.store, fun j => ?_⟩, by simp [SiteAction.call?]⟩
    have hj := h.client_at ⟨words, input, shown, hsession, hstdout, hreturned, hstands.loseReply (List.contains_iff_mem.mp hmem)⟩ j
    by_cases hji : j = i
    · subst hji
      simpa [Site.setReplies] using hj
    · simpa [Site.setReplies, hji] using hj
  next => cases hstep

theorem matched_call (h : Serves s₀ s a) {op : Op} {now : Int} (hstep : siteStep s (.call op now) = .ok s') :
    Matched s₀ s' a (.call op now) := by
  obtain ⟨⟨reply, db⟩, hexec, hret⟩ := bind_eq_ok hstep
  cases hret
  obtain ⟨result, x, hspec, -, hstate⟩ := op_inState h.store op hexec
  refine ⟨_, .single (.own a op x ⟨result, hspec⟩), ⟨hstate, h.client⟩, ?_⟩
  simp [SiteAction.call?, Entry.own?]

theorem Serves.step (h : Serves s₀ s a) {act : SiteAction ι} (hstep : siteStep s act = .ok s') :
    Matched s₀ s' a act := by
  cases act with
  | send i => exact matched_send h hstep
  | serve i d resp buf clock => exact matched_serve h hstep
  | receive i d => exact matched_receive h hstep
  | loseRequest i d => exact matched_loseRequest h hstep
  | loseReply i d => exact matched_loseReply h hstep
  | call op now => exact matched_call h hstep

theorem Serves.steps {acts : List (SiteAction ι)} (h : Serves s₀ s a) (hrun : steps siteStep acts s = .ok s') :
    ∃ a', Shared.Moves storeBehaviour a a' ∧ Serves s₀ s' a' ∧
      a'.order.filterMap Entry.own? = a.order.filterMap Entry.own? ++ acts.filterMap SiteAction.call? := by
  induction acts generalizing s a with
  | nil =>
      cases hrun
      exact ⟨a, .refl, h, by simp⟩
  | cons act acts ih =>
      obtain ⟨s₁, hstep, hrest⟩ := steps_cons hrun
      obtain ⟨a₁, hmoves₁, h₁, hown₁⟩ := h.step hstep
      obtain ⟨a', hmoves, h', hown⟩ := ih h₁ hrest
      refine ⟨a', hmoves₁.trans hmoves, h', ?_⟩
      rw [hown, hown₁, List.append_assoc]
      cases hcall : act.call? <;> simp [hcall]

end Steps

/-! ## One execution for all clients -/

structure Cli.Fresh (c : Cli) : Prop where
  sized : c.Sized
  stdout : c.stdout = promptText
  respData : c.respData = none
  phase : c.phase = .reading

structure Site.Fresh {ι : Type} (s : Site ι) : Prop where
  db : ∃ now, csdbInit now = .ok s.db
  cli : ∀ i, (s.cli i).Fresh
  requests : ∀ i, s.requests i = []
  replies : ∀ i, s.replies i = []

variable {ι : Type} [DecidableEq ι]

/-- `order` is an execution of the store that leads to what the database holds, with the
calls of the other threads at their places. What a client has shown on its terminal is the
answers that its commands have in `order`; at most one command, sent last, has no answer
on the terminal yet. -/
structure Accounts (s₀ s : Site ι) (acts : List (SiteAction ι)) (order : List (Entry ι Command Csd.Answer Op)) :
    Prop where
  store : ∃ x, Carried storeBehaviour order ⟨.init, false⟩ x ∧ InState s.db x
  calls : order.filterMap Entry.own? = acts.filterMap SiteAction.call?
  client : ∀ i, ∃ words input shown pending, Session (s₀.cli i).words (s₀.cli i).input words input shown ∧
    (s.cli i).stdout = promptText ++ shown.flatMap Shown.text ∧
    Shared.callsOf i order = shown.filterMap Shown.call ++ pending ∧
    pending.length ≤ 1 ∧ ((s.cli i).phase ≠ .waiting → pending = [])

omit [DecidableEq ι] in
theorem Site.Fresh.serves {s₀ : Site ι} (hfresh : s₀.Fresh) : Serves s₀ s₀ (Shared.start ⟨.init, false⟩) where
  store := by
    obtain ⟨now, hinit⟩ := hfresh.db
    obtain ⟨db, hdb, ht, hfree⟩ := csdbInit_spec .linear now
    cases hdb.symm.trans hinit
    exact ⟨hfree, _, ht, Models.init now⟩
  client := fun i => by
    have hcli := hfresh.cli i
    refine ⟨_, _, [], .start, (List.append_nil _).symm, rfl, ?_⟩
    exact .reading hcli.phase hcli.sized (.inl hcli.respData) rfl rfl (hfresh.requests i) (hfresh.replies i)

theorem Serves.accounts {s₀ s : Site ι} {a : Ledger ι} (hfresh : s₀.Fresh) (h : Serves s₀ s a)
    (hlinear : Shared.Linear storeBehaviour ⟨.init, false⟩ a) {acts : List (SiteAction ι)}
    (hown : a.order.filterMap Entry.own? = acts.filterMap SiteAction.call?) : Accounts s₀ s acts a.order where
  store := ⟨a.object, hlinear.carried, h.store⟩
  calls := hown
  client := fun i => by
    obtain ⟨words, input, shown, hsession, hstdout, hreturned, hstands⟩ := h.client i
    refine ⟨words, input, shown, (a.standing i).results, hsession, (hfresh.cli i).stdout ▸ hstdout, ?_, ?_⟩
    · rw [hreturned]
      exact hlinear.client i
    · generalize a.standing i = standing at hstands
      cases hstands with
      | reading | ended => exact ⟨Nat.zero_le _, fun _ => rfl⟩
      | asked => exact ⟨Nat.zero_le _, fun _ => rfl⟩
      | served line command answer hwaiting => exact ⟨le_rfl, fun hne => absurd hwaiting hne⟩

end Dkmp.Csm
