import Dkmp.Csc.Libs
import Dkmp.Machine.Trace

/-! # Tokenising loops of several threads

`strtok` keeps one position for the whole process. Three threads of the daemon run
loops over the tokens of a string of their own, and between two calls of `strtok` each
of them looks into the database or waits for another node. Every call of `strtok` is
one step here; what a request or a lookup returns is part of the step that ends it.
-/

namespace Dkmp.Csd

open Machine Csdb Csc

/-! ## The position of `strtok` -/

inductive Thread where
  | update
  | packet
  | bestNode
deriving DecidableEq, Repr

/-- The saved position: `NULL`, a text in the string of a thread, or a string that has
been freed since. -/
inductive Saved where
  | null
  | text (owner : Thread) (rest : CStr)
  | freed
deriving DecidableEq, Repr

def scan (delims : CStr) (owner : Thread) (text : CStr) : Option CStr × Saved :=
  match strtok delims text with
  | none => (none, .null)
  | some (token, rest) => (some token, .text owner rest)

def strtokNext (delims : CStr) : Saved → Exec (Option CStr × Saved)
  | .null => .ok (none, .null)
  | .text owner rest => .ok (scan delims owner rest)
  | .freed => .error .dangling

/-! ## The loops -/

/-- The loops of `csc_do_def_req_for_alive_nodes` (for one node, with whether it is the
last one), of `csc_update_cap_nodes_for_app`, of `csc_cap_to_exec` and of
`csda_best_node_for_app`. -/
inductive TokenLoop where
  | defReq (thisHostname node : CStr) (last : Bool)
  | capNodes
  | capToExec
  | bestNode
deriving DecidableEq, Repr

def TokenLoop.thread : TokenLoop → Thread
  | .defReq _ _ _ => .update
  | .capNodes => .update
  | .capToExec => .packet
  | .bestNode => .bestNode

def TokenLoop.delims : TokenLoop → CStr
  | .capToExec => capDelims
  | _ => [space]

/-- The part of the first test of the `while` that is not about the token. -/
def TokenLoop.enters : TokenLoop → Bool
  | .defReq thisHostname node _ => strcmp thisHostname node ≠ .eq
  | _ => true

/-- Whether the string is freed behind the loop: that of `defReq` is filled anew for the
next node. -/
def TokenLoop.frees : TokenLoop → Bool
  | .defReq _ _ last => last
  | _ => true

/-- Where a loop is: in its body with a token, before `strtok(NULL, delims)`, behind a
`NULL` from `strtok`, or left by its own choice. -/
inductive Phase where
  | body (token : CStr)
  | next (ok : Bool)
  | ended
  | left
deriving DecidableEq, Repr

structure LoopState where
  loop : TokenLoop
  string : CStr
  visited : List CStr
  phase : Phase
deriving DecidableEq, Repr

/-- What the body does with the result of its request or lookup. -/
def TokenLoop.resume (result : Int) : TokenLoop → Phase
  | .defReq _ _ _ => if result < 0 then .left else .next true
  | .capNodes => if result = -1 then .left else .next true
  | .capToExec => .next (result ≠ 0)
  | .bestNode => .next true

theorem TokenLoop.resume_cases (loop : TokenLoop) (result : Int) :
    loop.resume result = .left ∨ ∃ ok, loop.resume result = .next ok := by
  cases loop with
  | defReq thisHostname node last =>
      by_cases h : result < 0
      · exact Or.inl (if_pos h)
      · exact Or.inr ⟨true, if_neg h⟩
  | capNodes =>
      by_cases h : result = -1
      · exact Or.inl (if_pos h)
      · exact Or.inr ⟨true, if_neg h⟩
  | capToExec => exact Or.inr ⟨_, rfl⟩
  | bestNode => exact Or.inr ⟨_, rfl⟩

def LoopState.test (l : LoopState) (token : Option CStr) (ok : Bool) : LoopState :=
  match token with
  | none => { l with phase := .ended }
  | some token =>
      if ok then { l with visited := l.visited ++ [token], phase := .body token }
      else { l with phase := .left }

/-! ## The process -/

structure Process where
  saved : Saved
  caller : Option Thread
  loops : Thread → Option LoopState

def Process.init : Process := ⟨.null, none, fun _ => none⟩

def Process.set (s : Process) (t : Thread) (l : Option LoopState) : Process :=
  { s with loops := fun u => if u = t then l else s.loops u }

inductive Act where
  | start (loop : TokenLoop) (string : CStr)
  | resume (t : Thread) (result : Int)
  | next (t : Thread)
  | finish (t : Thread)
deriving DecidableEq, Repr

def Process.receive (s : Process) (t : Thread) (l : LoopState) (ok : Bool)
    (x : Option CStr × Saved) : Process :=
  { s with saved := x.2, caller := some t }.set t (some (l.test x.1 ok))

def Process.start (s : Process) (loop : TokenLoop) (string : CStr) : Process :=
  s.receive loop.thread ⟨loop, string, [], .ended⟩ loop.enters
    (scan loop.delims loop.thread string)

/-- `free` behind a loop: a position in the string is left dangling. -/
def Process.free (s : Process) (t : Thread) (l : LoopState) : Process :=
  match s.saved with
  | .text owner _ => if owner = t ∧ l.loop.frees then { s with saved := .freed } else s
  | _ => s

/-- A thread that is not at the point of an action refuses it. -/
def Process.step (s : Process) : Act → Exec Process
  | .start loop string =>
      match s.loops loop.thread with
      | none => .ok (s.start loop string)
      | some _ => .error .blocked
  | .resume t result =>
      match s.loops t with
      | some ⟨loop, string, visited, .body _⟩ =>
          .ok (s.set t (some ⟨loop, string, visited, loop.resume result⟩))
      | _ => .error .blocked
  | .next t =>
      match s.loops t with
      | some ⟨loop, string, visited, .next ok⟩ => do
          let x ← strtokNext loop.delims s.saved
          .ok (s.receive t ⟨loop, string, visited, .next ok⟩ ok x)
      | _ => .error .blocked
  | .finish t =>
      match s.loops t with
      | some l =>
          if l.phase = .ended ∨ l.phase = .left then .ok ((s.free t l).set t none)
          else .error .blocked
      | none => .error .blocked

def LoopState.tokens (l : LoopState) : List CStr := Machine.tokens l.loop.delims l.string

/-- The loop has visited the tokens of its own string in their order, and all of them
when `strtok` has told it that there are no more. -/
def LoopState.Undisturbed (l : LoopState) : Prop :=
  l.visited <+: l.tokens ∧ (l.phase = .ended → l.visited = l.tokens)

/-- A thread goes on with `strtok` only if no other thread has called it since. -/
def OwnPosition (s : Process) : Act → Prop
  | .next t => s.caller = some t
  | _ => True

/-! ## What each step keeps -/

/-- The loop is on its string, and if its thread called `strtok` last, the position is
that of the tokens it has still to visit. -/
def Follows (s : Process) (t : Thread) (l : LoopState) : Prop :=
  match l.phase with
  | .ended => l.visited = l.tokens
  | .left => l.visited <+: l.tokens
  | _ => ∃ more, l.tokens = l.visited ++ more ∧
      (s.caller = some t → ∃ rest, s.saved = .text t rest ∧ Machine.tokens l.loop.delims rest = more)

def AllFollow (s : Process) : Prop := ∀ t l, s.loops t = some l → Follows s t l

theorem Follows.undisturbed {s : Process} {t : Thread} {l : LoopState} (h : Follows s t l) :
    l.Undisturbed := by
  unfold Follows at h
  split at h
  next hp => exact ⟨by rw [h], fun _ => h⟩
  next hp => exact ⟨h, by simp [hp]⟩
  next hended _ =>
    obtain ⟨more, hmore, -⟩ := h
    exact ⟨⟨more, hmore.symm⟩, fun hp => absurd hp hended⟩

/-- Only the position and the last caller count. -/
theorem Follows.congr {s s' : Process} {t : Thread} {l : LoopState} (h : Follows s t l)
    (hsame : s'.caller = some t → s.caller = some t ∧
      ∀ rest, s.saved = .text t rest → s'.saved = .text t rest) : Follows s' t l := by
  unfold Follows at h ⊢
  split at h
  · exact h
  · exact h
  · obtain ⟨more, hmore, hpos⟩ := h
    refine ⟨more, hmore, ?_⟩
    intro hc
    obtain ⟨hc', hsaved⟩ := hsame hc
    obtain ⟨rest, hrest, htoks⟩ := hpos hc'
    exact ⟨rest, hsaved rest hrest, htoks⟩

theorem Process.set_loops (s : Process) (t u : Thread) (l : Option LoopState) :
    (s.set t l).loops u = if u = t then l else s.loops u := rfl

/-- After a change of one thread it is enough to look at this thread, if the position of
the others is left alone. -/
theorem AllFollow.set {s s' : Process} (h : AllFollow s) {t : Thread} {l : Option LoopState}
    (hloops : s'.loops = s.loops) (hl : ∀ l', l = some l' → Follows (s'.set t l) t l')
    (hother : ∀ u, u ≠ t → s'.caller = some u → s.caller = some u ∧
      ∀ rest, s.saved = .text u rest → s'.saved = .text u rest) : AllFollow (s'.set t l) := by
  intro u l' hu
  rw [Process.set_loops] at hu
  by_cases hut : u = t
  · rw [if_pos hut] at hu
    subst hut
    exact hl l' hu
  · rw [if_neg hut, hloops] at hu
    exact (h u l' hu).congr (hother u hut)

theorem follows_test {s : Process} {t : Thread} {l : LoopState} {text : CStr} (ok : Bool)
    (htoks : l.tokens = l.visited ++ Machine.tokens l.loop.delims text)
    (hsaved : s.saved = (scan l.loop.delims t text).2) :
    Follows s t (l.test (scan l.loop.delims t text).1 ok) := by
  rw [tokens_eq_strtok] at htoks
  unfold scan at hsaved ⊢
  cases hs : strtok l.loop.delims text with
  | none =>
      rw [hs] at htoks
      show l.visited = l.tokens
      rw [htoks, List.append_nil]
  | some x =>
      obtain ⟨token, rest⟩ := x
      simp only [hs] at htoks hsaved
      cases ok with
      | false => exact ⟨_, htoks.symm⟩
      | true =>
          refine ⟨Machine.tokens l.loop.delims rest, ?_, fun _ => ⟨rest, hsaved, rfl⟩⟩
          show l.tokens = (l.visited ++ [token]) ++ _
          rw [htoks, List.append_assoc, List.singleton_append]

theorem receive_follows {s : Process} (h : AllFollow s) (t : Thread) {l : LoopState} {text : CStr}
    (ok : Bool) (htoks : l.tokens = l.visited ++ Machine.tokens l.loop.delims text) :
    AllFollow (s.receive t l ok (scan l.loop.delims t text)) := by
  apply h.set
  · rfl
  · intro l' hl'
    rw [← Option.some.inj hl']
    exact follows_test ok htoks rfl
  · intro u hu hc
    exact absurd (Option.some.inj hc).symm hu

theorem resume_follows {s : Process} (h : AllFollow s) {t : Thread} {loop : TokenLoop}
    {string token : CStr} {visited : List CStr}
    (hl : s.loops t = some ⟨loop, string, visited, .body token⟩) (result : Int) :
    AllFollow (s.set t (some ⟨loop, string, visited, loop.resume result⟩)) := by
  obtain ⟨more, hmore, hpos⟩ := h t _ hl
  apply h.set rfl
  · intro l' hl'
    rw [← Option.some.inj hl']
    cases loop.resume_cases result with
    | inl hleft =>
        rw [hleft]
        exact ⟨more, hmore.symm⟩
    | inr hnext =>
        obtain ⟨ok, hok⟩ := hnext
        rw [hok]
        exact ⟨more, hmore, hpos⟩
  · exact fun u _ hc => ⟨hc, fun _ hrest => hrest⟩

/-- On its own position a thread gets the next token of its string. -/
theorem next_follows {s : Process} (h : AllFollow s) {t : Thread} (hown : s.caller = some t)
    {loop : TokenLoop} {string : CStr} {visited : List CStr} {ok : Bool}
    (hl : s.loops t = some ⟨loop, string, visited, .next ok⟩) :
    ∃ s', s.step (.next t) = .ok s' ∧ AllFollow s' := by
  obtain ⟨more, hmore, hpos⟩ := h t _ hl
  obtain ⟨rest, hrest, htoks⟩ := hpos hown
  refine ⟨_, ?_, receive_follows h t ok (hmore.trans (by rw [← htoks]))⟩
  simp only [Process.step, hl, hrest, strtokNext, ok_bind]

theorem finish_follows {s : Process} (h : AllFollow s) (t : Thread) (l : LoopState) :
    AllFollow ((s.free t l).set t none) := by
  have hsame : (s.free t l).caller = s.caller ∧ (s.free t l).loops = s.loops := by
    unfold Process.free
    split
    · split <;> exact ⟨rfl, rfl⟩
    · exact ⟨rfl, rfl⟩
  apply h.set hsame.2
  · intro l' hl'
    cases hl'
  · intro u hu hc
    refine ⟨hsame.1 ▸ hc, ?_⟩
    intro rest hrest
    simp only [Process.free, hrest, if_neg (fun hx : u = t ∧ _ => hu hx.1)]

/-- What a step does, when it is not refused. -/
theorem step_follows {s s' : Process} {a : Act} (h : AllFollow s) (hown : OwnPosition s a)
    (hstep : s.step a = .ok s') : AllFollow s' := by
  cases a with
  | start loop string =>
      simp only [Process.step] at hstep
      split at hstep
      · rw [← Except.ok.inj hstep]
        exact receive_follows h loop.thread loop.enters rfl
      · cases hstep
  | resume t result =>
      simp only [Process.step] at hstep
      split at hstep
      next hl =>
        rw [← Except.ok.inj hstep]
        exact resume_follows h hl result
      next => cases hstep
  | next t =>
      simp only [Process.step] at hstep
      split at hstep
      next loop string visited ok hl =>
        obtain ⟨s₁, hs₁, h₁⟩ := next_follows h hown hl
        simp only [Process.step, hl] at hs₁
        rw [hs₁] at hstep
        rw [← Except.ok.inj hstep]
        exact h₁
      next => cases hstep
  | finish t =>
      simp only [Process.step] at hstep
      split at hstep
      next l hl =>
        split at hstep
        · rw [← Except.ok.inj hstep]
          exact finish_follows h t l
        · cases hstep
      next => cases hstep

/-- No step reads a string that has been freed. -/
theorem step_not_dangling {s : Process} {a : Act} (h : AllFollow s) (hown : OwnPosition s a) :
    s.step a ≠ .error .dangling := by
  intro hd
  cases a with
  | start loop string =>
      simp only [Process.step] at hd
      split at hd <;> cases hd
  | resume t result =>
      simp only [Process.step] at hd
      split at hd <;> cases hd
  | next t =>
      have hd' := hd
      simp only [Process.step] at hd'
      split at hd'
      next loop string visited ok hl =>
        obtain ⟨s₁, hs₁, -⟩ := next_follows h hown hl
        rw [hd] at hs₁
        cases hs₁
      next => cases hd'
  | finish t =>
      simp only [Process.step] at hd
      split at hd
      · split at hd <;> cases hd
      · cases hd

/-! ## Whole runs -/

/-- The names of children, each followed by a space, are the tokens of their text. -/
theorem tokens_names {names : List CStr} (h : ∀ name ∈ names, name ≠ [] ∧ space ∉ name) :
    Machine.tokens [space] (names.flatMap (· ++ [space])) = names := by
  induction names with
  | nil => exact tokens_nil [space]
  | cons name names ih =>
      obtain ⟨hne, hspace⟩ := h name (by simp)
      have hword : ∀ c ∈ name, c ∉ [space] := by
        intro c hc hs
        rw [List.mem_singleton.mp hs] at hc
        exact hspace hc
      rw [List.flatMap_cons, List.append_assoc, List.singleton_append,
        tokens_word hne hword (by simp), List.tail_cons, ih (fun n hn => h n (by simp [hn]))]

/-- **Tokenising loops.** In every interleaving in which a thread goes on with `strtok`
only if no other thread has called it since, every loop visits the tokens of its own
string in their order, all of them unless it leaves by its own choice, so
`csc_update_cap_nodes_for_app` asks every alive node; and no call of `strtok` reads a
freed string. -/
theorem loops_undisturbed (acts : List Act)
    (hown : Along Process.step OwnPosition acts Process.init) :
    (∀ s, Visits Process.step acts Process.init s →
      ∀ t l, s.loops t = some l → l.Undisturbed) ∧
    (∀ s, Visits Process.step acts Process.init s → ∀ names visited,
      (∀ name ∈ names, name ≠ [] ∧ space ∉ name) →
      s.loops .update = some ⟨.capNodes, names.flatMap (· ++ [space]), visited, .ended⟩ →
      visited = names) ∧
    ∀ pre a post s, acts = pre ++ a :: post → steps Process.step pre Process.init = .ok s →
      s.step a ≠ .error .dangling := by
  have hfollow : ∀ pre post s, acts = pre ++ post →
      steps Process.step pre Process.init = .ok s → AllFollow s := by
    rintro pre post s rfl hrun
    refine steps_invariant AllFollow (fun s a s' => step_follows) pre _ s ?_ hown.append_left hrun
    intro t l hl
    cases hl
  refine ⟨?_, ?_, ?_⟩
  · rintro s ⟨pre, ⟨post, hpre⟩, hrun⟩ t l hl
    exact (hfollow pre post s hpre.symm hrun t l hl).undisturbed
  · rintro s ⟨pre, ⟨post, hpre⟩, hrun⟩ names visited hnames hl
    have hall := (hfollow pre post s hpre.symm hrun .update _ hl).undisturbed.2 rfl
    exact hall.trans (tokens_names hnames)
  · rintro pre a post s rfl hrun
    exact step_not_dangling (hfollow pre (a :: post) s rfl hrun) (hown.append_right hrun).1

def inTurn : List Act :=
  [.start .capNodes (lit ['a', ' ', 'b', ' ']), .resume .update 1, .next .update,
    .resume .update 1, .next .update, .start .capToExec (lit ['c'])]

theorem loops_undisturbed_in_turn :
    ∃ s l, steps Process.step inTurn Process.init = .ok s ∧
      s.loops .update = some l ∧ l.phase = .ended ∧ l.Undisturbed := by
  have hown : Along Process.step OwnPosition inTurn Process.init := by
    refine .cons trivial rfl (.cons trivial rfl (.cons rfl rfl ?_))
    exact .cons trivial rfl (.cons rfl rfl (.cons trivial rfl trivial))
  obtain ⟨s, l, hrun, hl, hphase⟩ : ∃ s l, steps Process.step inTurn Process.init = .ok s ∧
      s.loops .update = some l ∧ l.phase = .ended := ⟨_, _, rfl, rfl, rfl⟩
  exact ⟨s, l, hrun, hl, hphase,
    (loops_undisturbed inTurn hown).1 s ⟨inTurn, List.prefix_rfl, hrun⟩ .update l hl⟩

/-- The update thread asks the local node `a`; while it waits, the packet thread answers
with `csc_cap_to_exec` and takes the position with it, and `b` is never asked. -/
theorem second_node_not_asked :
    ∃ s l, steps Process.step
        [.start .capNodes (lit ['a', ' ', 'b', ' ']), .start .capToExec (lit ['c']),
          .resume .packet 1, .next .packet, .finish .packet, .resume .update 1, .next .update]
        Process.init = .ok s ∧
      s.loops .update = some l ∧ l.phase = .ended ∧ l.visited = [lit ['a']] ∧
      l.tokens = [lit ['a'], lit ['b']] ∧ ¬ l.Undisturbed := by
  refine ⟨_, _, rfl, rfl, rfl, rfl, rfl, ?_⟩
  rintro ⟨-, hall⟩
  cases hall rfl

end Dkmp.Csd
