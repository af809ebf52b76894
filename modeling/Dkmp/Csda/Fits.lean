import Dkmp.Csd.Answer
import Dkmp.Csd.Hello
import Dkmp.Csda.BestNode

/-! # The room for a name

The names that arrive in packets and messages are pasted into keys and copied into arrays of
fixed sizes, and none of the lengths is checked: a node name has up to 127 bytes, the name of an
application up to 254.
-/

namespace Dkmp.Csda

open Machine Csdb Csc Csd

/-- Whatever the database holds, no key that is built from the names is longer than its array,
nor is a name that is copied. In `best` the names behind `.app.<name>.capnodes` are those of
`nodes`, split at their spaces. -/
structure NamesFit (nodes : List CStr) (appName libs : CStr) : Prop where
  libs : ∀ db, Reachable db → cscCapToExec .linear (capKeySize libs) db libs ≠ .error .bounds
  alive : ∀ node ∈ nodes, ∀ db, Reachable db → cscNodeIsAlive .linear db node ≠ .error .bounds
  bench : ∀ node ∈ nodes, ∀ db, Reachable db → csdaCalcBench .linear db node ≠ .error .bounds
  best : ∀ db nodeName, Reachable db → capNames db appName ⊆ nodes.flatMap (tokens [space]) →
    csdaBestNodeForApp .linear db appName nodeName ≠ .error .bounds

/-! ## Calls with a key that fits -/

section Calls

variable {db : Database} {t : Tree} (h : Holds .linear db t)

include h

theorem csdbKeyExist_inBounds {rest : CStr} (hne : rest ≠ []) :
    InBounds (csdbKeyExist .linear db (dot :: rest)) fun r => Holds .linear r.2 t := by
  cases hlock : db.locked with
  | true =>
      have hwait : csdbKeyExist .linear db (dot :: rest) = .error .blocked := by
        simp [csdbKeyExist, lock_taken hlock]
      rw [hwait]
      exact .of_error (by decide) _
  | false =>
      obtain ⟨L, hrep⟩ := id h
      rw [csdbKeyExist_dot hrep (bounded_linear t) hlock hne]
      exact .of_ok h

theorem csdbGetValueForKey_inBounds {key : CStr} (hv : csdbIsValidKey key = true) :
    InBounds (csdbGetValueForKey .linear db key) fun r => Holds .linear r.2.2 t := by
  cases hlock : db.locked with
  | true =>
      have hwait : csdbGetValueForKey .linear db key = .error .blocked := by
        simp [csdbGetValueForKey, hv, lock_taken hlock]
      rw [hwait]
      exact .of_error (by decide) _
  | false =>
      obtain ⟨L, hrep⟩ := id h
      rw [csdbGetValueForKey_spec hrep (bounded_linear t) hlock hv]
      unfold valueReply
      split
      · exact .of_ok ⟨L, hrep.setLocked true⟩
      · exact .of_ok ⟨L, hrep.setLocked true⟩
      · exact .of_error (by decide) _
      · exact .of_ok h

theorem cscNodeIsAlive_inBounds {node : CStr} (hlen : node.length ≤ 248) :
    InBounds (cscNodeIsAlive .linear db node) fun r => Holds .linear r.2 t := by
  rw [cscNodeIsAlive, aliveKey_fits hlen, ok_bind]
  exact csdbKeyExist_inBounds h (by simp)

theorem readLoad_inBounds {node : CStr} (hlen : node.length ≤ 238) (average : Average) :
    InBounds (readLoad .linear db node average) fun r => Holds .linear r.2 t := by
  rw [readLoad, nodeLoadKey_fits hlen, ok_bind]
  apply (csdbGetValueForKey_inBounds h (nodeLoadKey_valid node average)).bind
  rintro ⟨error, value, db'⟩ h'
  dsimp only
  split
  · exact .of_ok h'
  · cases value with
    | none => exact .of_error (by decide) _
    | some value => exact .of_ok h'

theorem csdaCalcBench_inBounds {node : CStr} (hlen : node.length ≤ 238) :
    InBounds (csdaCalcBench .linear db node) fun r => Holds .linear r.2 t := by
  unfold csdaCalcBench
  apply (readLoad_inBounds h hlen .avg1).bind
  rintro ⟨load1, db₁⟩ h₁
  cases load1 with
  | none => exact .of_ok h₁
  | some load1 =>
      apply (readLoad_inBounds h₁ hlen .avg5).bind
      rintro ⟨load5, db₅⟩ h₅
      cases load5 with
      | none => exact .of_ok h₅
      | some load5 =>
          apply (readLoad_inBounds h₅ hlen .avg15).bind
          rintro ⟨load15, db₁₅⟩ h₁₅
          cases load15 with
          | none => exact .of_ok h₁₅
          | some load15 => exact .of_ok h₁₅

end Calls

/-! ## The names fit -/

section Enough

variable {db : Database} {t : Tree} (h : Holds .linear db t)

include h

theorem cscCapToExec_inBounds {libs : CStr}
    (hlibs : ∀ tok ∈ tokens capDelims libs, tok.length + 5 ≤ libs.length) :
    InBounds (cscCapToExec .linear (capKeySize libs) db libs) fun r => Holds .linear r.2 t := by
  apply loop_inBounds (fun s : CStr × Int × Database =>
    tokens capDelims s.1 ⊆ capTokens libs ∧ Holds .linear s.2.2 t)
  · rintro ⟨text, ok, db'⟩ ⟨hsub, h'⟩
    cases hlist : tokens capDelims text with
    | nil =>
        simp only [capBody, strtok_eq_none hlist]
        exact .of_ok h'
    | cons tok toks =>
        obtain ⟨rest, hs, hrest⟩ := strtok_eq_some hlist
        simp only [hlist] at hsub
        have hfits : sprintf (capKeySize libs) (libKey tok) = .ok (libKey tok) := by
          have htok := hsub List.mem_cons_self
          rw [capTokens_eq] at htok
          obtain ⟨x, hx, rfl⟩ := List.mem_map.mp htok
          have hle := hlibs x hx
          apply sprintf_ok
          rw [length_libKey, replacePoints, List.length_map, capKeySize]
          omega
        simp only [capBody, hs]
        split
        · exact .of_ok h'
        · rw [hfits, ok_bind]
          apply (csdbKeyExist_inBounds h' (by simp)).bind
          rintro ⟨ok', db''⟩ h''
          exact .of_ok ⟨by rw [hrest]; exact (List.cons_subset.mp hsub).2, h''⟩
  · exact ⟨List.Subset.refl _, h⟩

theorem bestLoop_inBounds {names : List CStr} (hnames : ∀ name ∈ names, name.length < nodeSize)
    {capNodes : CStr} (hsub : tokens [space] capNodes ⊆ names) (nodeName : Option CStr) :
    InBounds (bestLoop .linear db capNodes nodeName) fun r => Holds .linear r.2.2 t := by
  have hsize : nodeSize = 65 := rfl
  have hloop : InBounds (loop (bestBody .linear) (capNodes.length + 1) (capNodes, -1, nodeName, db))
      fun r => Holds .linear r.2.2 t := by
    apply loop_inBounds (fun s : CStr × ℚ × Option CStr × Database =>
      tokens [space] s.1 ⊆ names ∧ Holds .linear s.2.2.2 t)
    · rintro ⟨text, maxBench, buffer, db'⟩ ⟨htext, h'⟩
      cases hlist : tokens [space] text with
      | nil =>
          simp only [bestBody, strtok_eq_none hlist]
          exact .of_ok h'
      | cons node more =>
          obtain ⟨rest, hs, hrest⟩ := strtok_eq_some hlist
          simp only [hlist] at htext
          obtain ⟨hmem, hmore⟩ := List.cons_subset.mp htext
          have hlen := hnames node hmem
          simp only [bestBody, hs]
          apply (cscNodeIsAlive_inBounds h' (show node.length ≤ 248 by omega)).bind
          rintro ⟨ret, db₁⟩ h₁
          dsimp only
          split
          · exact .of_ok ⟨by rwa [hrest], h₁⟩
          · apply (csdaCalcBench_inBounds h₁ (show node.length ≤ 238 by omega)).bind
            rintro ⟨bench, db₂⟩ h₂
            dsimp only
            split
            · rw [sprintf_ok hlen, ok_bind]
              exact .of_ok ⟨by rwa [hrest], h₂⟩
            · exact .of_ok ⟨by rwa [hrest], h₂⟩
    · exact ⟨hsub, h⟩
  apply hloop.bind
  intro r hr
  exact .of_ok hr

theorem csdaBestNodeForApp_inBounds {appName : CStr} (happ : appName.length ≤ 241)
    (hnames : ∀ name ∈ capNames db appName, name.length < nodeSize) (nodeName : Option CStr) :
    csdaBestNodeForApp .linear db appName nodeName ≠ .error .bounds := by
  rw [csdaBestNodeForApp, capKey_fits happ, ok_bind]
  cases hlock : db.locked with
  | true => simp [csdbKeyExist, lock_taken hlock]
  | false =>
      obtain ⟨L, hrep⟩ := id h
      obtain ⟨hget, hafter⟩ := csdbGetValueForKey_inBounds h (capKey_valid appName)
      rw [csdbKeyExist_spec hrep (bounded_linear t) hlock (capKey_valid appName), ok_bind]
      by_cases hin : (t.record (keyPath (capKey appName)).reverse).isSome
      · simp only [hin, if_true, one_ne_zero, if_false]
        cases hcall : csdbGetValueForKey .linear db (capKey appName) with
        | error e =>
            rw [hcall] at hget
            simpa using hget
        | ok r =>
            obtain ⟨error, capNodes, db'⟩ := r
            have h' : Holds .linear db' t := hafter _ hcall
            rw [ok_bind]
            dsimp only
            split
            · simp
            · cases capNodes with
              | none => simp
              | some value =>
                  have hvalue : capNames db appName = tokens [space] value := by
                    apply capNames_value
                    rw [valueFor, hcall]
                    rfl
                  rw [hvalue] at hnames
                  exact (bestLoop_inBounds h' hnames (List.Subset.refl _) nodeName).1
      · simp [hin]

end Enough

/-! ## Databases that need the room -/

theorem reachable_keys (keys : List CStr) (hv : ∀ key ∈ keys, csdbIsValidKey key = true) :
    ∃ db t, Reachable db ∧ Holds .linear db t ∧ db.locked = false ∧
      ∀ key ∈ keys, (t.record (keyPath key).reverse).isSome := by
  induction keys with
  | nil =>
      obtain ⟨db, hinit, h, hfree⟩ := csdbInit_spec .linear 0
      exact ⟨db, _, .init 0 db hinit, h, hfree, by simp⟩
  | cons key keys ih =>
      obtain ⟨db, t, hreach, h, hfree, hall⟩ := ih fun k hk => hv k (by simp [hk])
      obtain ⟨db', t', hreach', h', hfree', hrec, -⟩ := hreach.set h hfree (hv key (by simp)) []
      refine ⟨db', t', hreach', h', hfree', ?_⟩
      intro k hk
      rw [hrec]
      rcases List.mem_cons.mp hk with rfl | hk
      · exact .inl List.suffix_rfl
      · exact .inr (hall k hk)

/-- With every name in the database the loop comes to every key. -/
theorem KeysFit.all {t : Tree} {n : Nat} {toks : List CStr} (h : KeysFit t n toks)
    (hin : ∀ tok ∈ toks, (t.record [tok, lib]).isSome) : ∀ tok ∈ toks, tok.length + 5 ≤ n := by
  induction toks with
  | nil => simp
  | cons first toks ih =>
      intro tok htok
      rcases List.mem_cons.mp htok with rfl | htok
      · exact h.1
      · exact ih (h.2 (hin first (by simp))) (fun x hx => hin x (by simp [hx])) tok htok

theorem NamesFit.libs_fit {nodes : List CStr} {appName libs : CStr}
    (h : NamesFit nodes appName libs) :
    ∀ tok ∈ tokens capDelims libs, tok.length + 5 ≤ libs.length := by
  have hplain : ∀ tok ∈ capTokens libs, csdbIsValidKey (libKey tok) = true ∧
      (keyPath (libKey tok)).reverse = [tok, lib] := by
    intro tok htok
    obtain ⟨hv, -, hpath⟩ := libKey_plain (token_ne_nil htok) (capTokens_no_dot libs tok htok)
    exact ⟨hv, by rw [hpath]; rfl⟩
  obtain ⟨db, t, hreach, hholds, hfree, hin⟩ := reachable_keys ((capTokens libs).map libKey)
    (List.forall_mem_map.mpr fun tok htok => (hplain tok htok).1)
  have hfits : KeysFit t libs.length (capTokens libs) := by
    rcases capLoop_cases hholds hfree libs.length (capTokens libs) (replacePoints libs) rfl
      (capTokens_no_dot libs) _ (length_capTokens libs) with ⟨hfits, -⟩ | ⟨-, herr⟩
    · exact hfits
    · exact absurd herr (h.libs db hreach)
  have hall := KeysFit.all hfits fun tok htok => by
    rw [← (hplain tok htok).2]
    exact hin _ (List.mem_map_of_mem htok)
  rw [capTokens_eq] at hall
  intro tok htok
  have hlen := hall (replacePoints tok) (List.mem_map_of_mem htok)
  rwa [replacePoints, List.length_map] at hlen

theorem NamesFit.app_fits {nodes : List CStr} {appName libs : CStr}
    (h : NamesFit nodes appName libs) : appName.length ≤ 241 := by
  obtain ⟨db, hinit, hholds, hfree⟩ := csdbInit_spec .linear 0
  by_contra hlong
  have hnone : capNames db appName = [] := by
    delta capNames
    rw [valueFor_init hholds (bounded_linear _) hfree (capKey_valid appName)]
  apply h.best db none (.init 0 db hinit) (by simp [hnone])
  have hkey : sprintf ksize (capKey appName) = .error .bounds := by
    apply sprintf_long
    rw [length_capKey, ksize]
    omega
  rw [csdaBestNodeForApp, hkey, error_bind]

/-- The only node that can run the application is alive and has no load: its goodness 0 is more
than -1, so that its name is copied. -/
theorem name_copied {appName name : CStr} (happ : appName.length ≤ 241) (hne : name ≠ [])
    (hspace : ∀ c ∈ name, c ∉ [space]) (hlen : name.length ≤ 238) (hlong : nodeSize ≤ name.length) :
    ∃ db, Reachable db ∧ capNames db appName = [name] ∧
      csdaBestNodeForApp .linear db appName none = .error .bounds := by
  have hload : dot ∉ loadavg ['1'] ∧ loadavg ['1'] ≠ [] := by decide
  have hloadv := loadKey_valid name hload.1 hload.2
  obtain ⟨db₀, hinit, h₀, hfree₀⟩ := csdbInit_spec .linear 0
  obtain ⟨db₁, t₁, hreach₁, h₁, hfree₁, hrec₁, hvalues₁⟩ :=
    Reachable.set (.init 0 db₀ hinit) h₀ hfree₀ hloadv []
  obtain ⟨db₂, t₂, hreach₂, h₂, hfree₂, hrec₂, hvalues₂⟩ :=
    hreach₁.set h₁ hfree₁ (capKey_valid appName) name
  have hvalue : valueFor .linear db₂ (capKey appName) = .ok (some name) := by
    rw [hvalues₂ _ (capKey_valid appName), if_pos rfl]
  have hnames : capNames db₂ appName = [name] := by
    rw [capNames_value hvalue]
    exact tokens_single hne hspace
  -- the second character of a key tells them apart
  have habsent : valueFor .linear db₂ (nodeLoadKey name .avg1) = .ok none := by
    have hv := nodeLoadKey_valid name .avg1
    have hcap : nodeLoadKey name .avg1 ≠ capKey appName := by
      intro he
      cases (List.cons.inj (List.cons.inj he).2).1
    have halive : nodeLoadKey name .avg1 ≠ loadKey name ['1'] := by
      intro he
      cases (List.cons.inj (List.cons.inj he).2).1
    rw [hvalues₂ _ hv, if_neg hcap, hvalues₁ _ hv, if_neg halive,
      valueFor_init h₀ (bounded_linear _) hfree₀ hv]
  have halive : cscNodeIsAlive .linear db₂ name = .ok (1, db₂) := by
    obtain ⟨L, hrep⟩ := id h₂
    have hin : (t₂.record (nodePath name).reverse).isSome := by
      rw [hrec₂, hrec₁, keyPath_loadKey name hload.1 hload.2]
      exact .inr (.inl (nodePath_loadPath name ['1']))
    rw [cscNodeIsAlive_spec hrep hfree₂ (by omega), if_pos hin]
  obtain ⟨error, hneg, hfetch⟩ :=
    csdbGetValueForKey_none h₂ (bounded_linear t₂) hfree₂ (nodeLoadKey_valid name .avg1) habsent
  have hbench : csdaCalcBench .linear db₂ name = .ok (0, { db₂ with locked := true }) := by
    simp only [csdaCalcBench, readLoad, nodeLoadKey_fits hlen, hfetch, ok_bind, if_pos hneg]
  refine ⟨db₂, hreach₂, hnames, ?_⟩
  have hkey := capKey_fits happ
  have hexist := csdbKeyExist_value h₂ (bounded_linear t₂) hfree₂ (capKey_valid appName) hvalue
  have hget := csdbGetValueForKey_value h₂ (bounded_linear t₂) hfree₂ (capKey_valid appName) hvalue
  have hbody : bestBody .linear (name, -1, none, db₂) = .error .bounds := by
    obtain ⟨rest, hs, -⟩ := strtok_eq_some (tokens_single hne hspace)
    simp [bestBody, hs, halive, hbench, sprintf_long hlong]
  simp [csdaBestNodeForApp, hkey, hexist, hget, bestLoop, loop, hbody]

theorem NamesFit.node_fits {nodes : List CStr} {appName libs : CStr}
    (h : NamesFit nodes appName libs) (hnodes : ∀ node ∈ nodes, node.length ≤ 127) :
    ∀ node ∈ nodes, ∀ name ∈ tokens [space] node, name.length < nodeSize := by
  intro node hnode name hname
  by_contra hlong
  have hle := Nat.le_trans (length_token_le hname) (hnodes node hnode)
  obtain ⟨db, hreach, hnames, hcopy⟩ := name_copied h.app_fits (token_ne_nil hname)
    (token_no_delim hname) (by omega) (by omega)
  have hsub : capNames db appName ⊆ nodes.flatMap (tokens [space]) := by
    rw [hnames]
    simpa using ⟨node, hnode, hname⟩
  exact h.best db none hreach hsub hcopy

/-! ## Which names fit -/

/-- Node names of at most 127 bytes, the name of an application and a string of libraries fit
exactly if the string has five bytes more than any library in it, which is the room for `.lib.`,
the application has at most 241 bytes and no node has 65 in a row without a space. -/
theorem names_fit_iff {nodes : List CStr} {appName libs : CStr}
    (hnodes : ∀ node ∈ nodes, node.length ≤ 127) :
    NamesFit nodes appName libs ↔
      (∀ tok ∈ tokens capDelims libs, tok.length + 5 ≤ libs.length) ∧ appName.length ≤ 241 ∧
        ∀ node ∈ nodes, ∀ name ∈ tokens [space] node, name.length < nodeSize := by
  constructor
  · intro h
    exact ⟨h.libs_fit, h.app_fits, h.node_fits hnodes⟩
  · rintro ⟨hlibs, happ, hnames⟩
    constructor
    · intro db hreach
      obtain ⟨t, h⟩ := hreach.holds
      exact (cscCapToExec_inBounds h hlibs).1
    · intro node hnode db hreach
      obtain ⟨t, h⟩ := hreach.holds
      have hle := hnodes node hnode
      exact (cscNodeIsAlive_inBounds h (show node.length ≤ 248 by omega)).1
    · intro node hnode db hreach
      obtain ⟨t, h⟩ := hreach.holds
      have hle := hnodes node hnode
      exact (csdaCalcBench_inBounds h (show node.length ≤ 238 by omega)).1
    · intro db nodeName hreach hsub
      obtain ⟨t, h⟩ := hreach.holds
      apply csdaBestNodeForApp_inBounds h happ
      intro name hname
      obtain ⟨node, hnode, htoken⟩ := List.mem_flatMap.mp (hsub hname)
      exact hnames node hnode name htoken

/-- Two nodes, the application `x` and two libraries of four bytes. -/
theorem names_fit_iff_short :
    NamesFit [lit ['a'], lit ['b']] (lit ['x']) (lit ['l', 'i', 'b', 'a', ' ', 'l', 'i', 'b', 'b']) :=
  (names_fit_iff (by decide)).mpr (by decide)

/-- The key of a library that comes alone is longer than its array, and the longest names of an
application and of a node are longer than theirs. -/
theorem long_names_overrun :
    (∀ nodes appName, ¬ NamesFit nodes appName (lit ['l', 'i', 'b', 'c', '.', 's', 'o', '.', '6'])) ∧
      (∀ nodes libs, ¬ NamesFit nodes (List.replicate 254 ⟨120, by decide⟩) libs) ∧
      ∀ appName libs, ¬ NamesFit [List.replicate 127 ⟨97, by decide⟩] appName libs := by
  refine ⟨?_, ?_, ?_⟩
  · intro nodes appName h
    have hlen := h.libs_fit (lit ['l', 'i', 'b', 'c', '.', 's', 'o', '.', '6']) (by decide)
    exact absurd hlen (by decide)
  · intro nodes libs h
    have hlen := h.app_fits
    rw [List.length_replicate] at hlen
    omega
  · intro appName libs h
    have hname : List.replicate 127 ⟨97, by decide⟩ ∈
        tokens [space] (List.replicate 127 (⟨97, by decide⟩ : CChar)) := by
      rw [tokens_single (by simp)]
      · exact List.mem_singleton_self _
      · intro c hc
        rw [(List.mem_replicate.mp hc).2]
        decide
    have hlen := h.node_fits (by simp) _ (List.mem_singleton_self _) _ hname
    rw [List.length_replicate] at hlen
    exact absurd hlen (by decide)

end Dkmp.Csda
