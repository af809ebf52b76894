import Dkmp.Csda.MessageQueue

/-! # Serving a request

With names that fit their arrays a request is answered, or waits for the mutex of the
database. No array overruns, no pointer is missing and no loop runs for ever, whatever the
database holds.
-/

namespace Dkmp.Csda

open Machine Csdb Csc Csd

/-! ## Calls of the database -/

section Calls

variable {db : Database} {s : Store}

theorem op_spec_waits {op : Op} {e : Fault} (h : op.spec s = .error e) : e = .blocked := by
  cases op with
  | edit edit =>
      simp only [Op.spec] at h
      split at h
      · exact (Except.error.inj h).symm
      · cases h
  | keyExist key =>
      simp only [Op.spec] at h
      split at h
      · exact (Except.error.inj h).symm
      · cases h
  | getValue key =>
      simp only [Op.spec] at h
      split at h
      · exact (Except.error.inj h).symm
      · cases h
  | childNames key => cases h

theorem op_advances (h : InState db s) (op : Op) (now : Int) :
    Advances (op.call.exec .linear now db) fun r =>
      ∃ result s', op.spec s = .ok (result, s') ∧ r.1.Gives .linear result ∧ InState r.2 s' := by
  cases hexec : op.call.exec .linear now db with
  | ok r => exact .of_ok (op_inState h op hexec)
  | error e =>
      obtain ⟨hl, t, ht, hm⟩ := h
      have houtcome := op_refines ht (bounded_linear t) hm hl op now
      rw [hexec] at houtcome
      cases hspec : op.spec s with
      | error e' =>
          rw [hspec] at houtcome
          obtain rfl : e = e' := houtcome
          obtain rfl := op_spec_waits hspec
          exact .of_blocked _
      | ok y =>
          rw [hspec] at houtcome
          exact houtcome.elim

theorem csdbKeyExist_advances (h : Sound db) {rest : CStr} (hne : rest ≠ []) :
    Advances (csdbKeyExist .linear db (dot :: rest)) fun r => Sound r.2 := by
  obtain ⟨s, hs⟩ := id h
  obtain ⟨-, t, ⟨L, hrep⟩, -⟩ := hs
  cases hlock : db.locked with
  | true =>
      have hwait : csdbKeyExist .linear db (dot :: rest) = .error .blocked := by
        simp [csdbKeyExist, lock_taken hlock]
      rw [hwait]
      exact .of_blocked _
  | false =>
      rw [csdbKeyExist_dot hrep (bounded_linear t) hlock hne]
      exact .of_ok h

/-- A value comes without an error. -/
theorem csdbGetValueForKey_advances (h : Sound db) {key : CStr} (hv : csdbIsValidKey key = true) :
    Advances (csdbGetValueForKey .linear db key) fun r => (r.1 < 0 ∨ r.2.1.isSome) ∧ Sound r.2.2 := by
  obtain ⟨s, hs⟩ := h
  apply (op_advances hs (.getValue ⟨key, hv⟩) 0).of_map.mono
  rintro ⟨error, value, db'⟩ ⟨result, s', hspec, hgives, hs'⟩
  refine ⟨?_, s', hs'⟩
  obtain ⟨-, hsome⟩ := getValue_result hspec hgives
  rcases lt_or_ge error 0 with hneg | hpos
  · exact .inl hneg
  · exact .inr (hsome.mp hpos)

end Calls

/-! ## One node -/

section Node

variable {db : Database} (h : Sound db) {node : CStr} (hlen : node.length < nodeSize)

include h hlen

theorem cscNodeIsAlive_advances : Advances (cscNodeIsAlive .linear db node) fun r => Sound r.2 := by
  have hfits : node.length ≤ 248 := by rw [nodeSize] at hlen; omega
  rw [cscNodeIsAlive, aliveKey_fits hfits, ok_bind]
  exact csdbKeyExist_advances h (by simp)

theorem readLoad_advances (average : Average) :
    Advances (readLoad .linear db node average) fun r => Sound r.2 := by
  have hfits : node.length ≤ 238 := by rw [nodeSize] at hlen; omega
  rw [readLoad, nodeLoadKey_fits hfits, ok_bind]
  apply (csdbGetValueForKey_advances h (nodeLoadKey_valid node average)).bind
  rintro ⟨error, value, db'⟩ ⟨hvalue, h'⟩
  dsimp only at hvalue ⊢
  split
  · exact .of_ok h'
  · next hpos =>
    obtain ⟨text, rfl⟩ := Option.isSome_iff_exists.mp (hvalue.resolve_left hpos)
    exact .of_ok h'

theorem csdaCalcBench_advances : Advances (csdaCalcBench .linear db node) fun r => Sound r.2 := by
  unfold csdaCalcBench
  apply (readLoad_advances h hlen .avg1).bind
  rintro ⟨load1, db₁⟩ h₁
  cases load1 with
  | none => exact .of_ok h₁
  | some load1 =>
      apply (readLoad_advances h₁ hlen .avg5).bind
      rintro ⟨load5, db₅⟩ h₅
      cases load5 with
      | none => exact .of_ok h₅
      | some load5 =>
          apply (readLoad_advances h₅ hlen .avg15).bind
          rintro ⟨load15, db₁₅⟩ h₁₅
          cases load15 with
          | none => exact .of_ok h₁₅
          | some load15 => exact .of_ok h₁₅

end Node

/-! ## The best node -/

def Found {α : Type} [Neg α] [One α] (best : α) (nodeName : Option CStr) : Prop :=
  best = -1 ∨ ∃ node, nodeName = some node ∧ node.length < nodeSize

theorem bestLoop_advances {db : Database} (h : Sound db) {capNodes : CStr}
    (hnames : ∀ name ∈ tokens [space] capNodes, name.length < nodeSize) (nodeName : Option CStr) :
    Advances (bestLoop .linear db capNodes nodeName) fun r => Found r.1 r.2.1 ∧ Sound r.2.2 := by
  have hloop : Advances (loop (bestBody .linear) (capNodes.length + 1) (capNodes, -1, nodeName, db))
      fun r => Found r.1 r.2.1 ∧ Sound r.2.2 := by
    apply loop_advances (fun s : CStr × ℚ × Option CStr × Database =>
      tokens [space] s.1 ⊆ tokens [space] capNodes ∧ Found s.2.1 s.2.2.1 ∧ Sound s.2.2.2)
      _ (fun s => (tokens [space] s.1).length)
    · rintro ⟨text, maxBench, buffer, db'⟩ ⟨htext, hfound, h'⟩
      cases hlist : tokens [space] text with
      | nil =>
          simp only [bestBody, strtok_eq_none hlist]
          exact .of_ok ⟨hfound, h'⟩
      | cons node more =>
          obtain ⟨rest, hs, hrest⟩ := strtok_eq_some hlist
          simp only [hlist] at htext
          obtain ⟨hmem, hmore⟩ := List.cons_subset.mp htext
          have hlen := hnames node hmem
          have hless : (tokens [space] rest).length < (node :: more).length := by
            rw [hrest]
            exact Nat.lt_succ_self _
          rw [← hrest] at hmore
          simp only [bestBody, hs]
          apply (cscNodeIsAlive_advances h' hlen).bind
          rintro ⟨ret, db₁⟩ h₁
          dsimp only
          split
          · exact .of_ok ⟨⟨hmore, hfound, h₁⟩, hless⟩
          · apply (csdaCalcBench_advances h₁ hlen).bind
            rintro ⟨bench, db₂⟩ h₂
            dsimp only
            split
            · rw [sprintf_ok hlen, ok_bind]
              exact .of_ok ⟨⟨hmore, .inr ⟨node, rfl, hlen⟩, h₂⟩, hless⟩
            · exact .of_ok ⟨⟨hmore, hfound, h₂⟩, hless⟩
    · exact ⟨List.Subset.refl _, .inl rfl, h⟩
    · exact Nat.lt_succ_of_le (length_tokens_le [space] capNodes)
  apply hloop.bind
  rintro ⟨maxBench, buffer, db'⟩ ⟨hfound, h'⟩
  refine .of_ok ⟨?_, h'⟩
  rcases hfound with rfl | hcopied
  · exact .inl rfl
  · exact .inr hcopied

theorem csdaBestNodeForApp_advances {db : Database} (h : Sound db) {appName : CStr}
    (hlen : appName.length ≤ 241) (hnames : ∀ name ∈ capNames db appName, name.length < nodeSize)
    (nodeName : Option CStr) :
    Advances (csdaBestNodeForApp .linear db appName nodeName) fun r => Found r.1 r.2.1 ∧ Sound r.2.2 := by
  have hv := capKey_valid appName
  rw [csdaBestNodeForApp, capKey_fits hlen, ok_bind]
  obtain ⟨s, hs⟩ := id h
  obtain ⟨-, t, ⟨L, hrep⟩, -⟩ := hs
  cases hlock : db.locked with
  | true =>
      have hwait : csdbKeyExist .linear db (capKey appName) = .error .blocked := by
        simp [csdbKeyExist, lock_taken hlock]
      rw [hwait]
      exact .of_blocked _
  | false =>
      rw [csdbKeyExist_spec hrep (bounded_linear t) hlock hv, ok_bind]
      by_cases hin : (t.record (keyPath (capKey appName)).reverse).isSome
      · simp only [hin, if_true, one_ne_zero, if_false]
        rcases csdbGetValueForKey_advances h hv with hwait | ⟨⟨error, capNodes, db'⟩, hcall, hvalue, h'⟩
        · rw [hwait, error_bind]
          exact .of_blocked _
        · rw [hcall, ok_bind]
          dsimp only at hvalue h' ⊢
          split
          · exact .of_ok ⟨.inl rfl, h'⟩
          · next hpos =>
            obtain ⟨value, rfl⟩ := Option.isSome_iff_exists.mp (hvalue.resolve_left hpos)
            have hvalueFor : valueFor .linear db (capKey appName) = .ok (some value) := by
              rw [valueFor, hcall]
              rfl
            rw [capNames_value hvalueFor] at hnames
            exact bestLoop_advances h' hnames nodeName
      · simp only [hin, Bool.false_eq_true, if_false, if_true]
        exact .of_ok ⟨.inl rfl, h⟩

/-! ## A round of the thread -/

theorem serve_advances {hostname : Option CStr} {server : Server} (h : Sound server.db)
    {msg appName : CStr} {clientId : Int} (hreq : requested msg = some (clientId, appName))
    (hlen : appName.length ≤ 241)
    (hhost : ∃ name, hostname = some name ∧ name.length < nodeSize)
    (hnames : ∀ name ∈ capNames server.db appName, name.length < nodeSize) :
    Advances (serve .linear hostname server msg) fun server' => Sound server'.db ∧
      server'.fields = ⟨some clientId, some appName⟩ ∧
      ∃ node, server'.replies = server.replies ++ [(clientId, node)] := by
  obtain ⟨name, rfl, hfits⟩ := hhost
  rw [serve, sscanfRequest_eq hreq hlen, ok_bind]
  apply (csdaBestNodeForApp_advances h hlen hnames server.bestNode).bind
  rintro ⟨error, bestNode, db⟩ ⟨hfound, h'⟩
  dsimp only at hfound h' ⊢
  have hbest : ∃ node, orHostname (some name) error bestNode = .ok (some node) ∧ node.length < nodeSize := by
    unfold orHostname
    split
    · refine ⟨name, ?_, hfits⟩
      dsimp only
      rw [sprintf_ok hfits]
      rfl
    · next hne =>
      obtain ⟨node, rfl, hnode⟩ := hfound.resolve_left hne
      exact ⟨node, rfl, hnode⟩
  obtain ⟨node, hnode, hnodeFits⟩ := hbest
  rw [hnode, ok_bind]
  dsimp only
  rw [sprintf_ok hnodeFits, ok_bind]
  exact .of_ok ⟨h', rfl, node, rfl⟩

end Dkmp.Csda
