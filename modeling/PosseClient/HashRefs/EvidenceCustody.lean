/-
# Evidence is custody of one call

The runs of `HashRefCapabilityStore.js`: what a row of `hash_ref_evidence_refs` proves, and who may
read it.

* `CapabilitySound`: rows have one key each, and their refs are taken.
* `registerEvidence_cases`: a registration changes nothing of the evidence, or inserts one row, under
  a ref that was free or was given and agrees in source and selector.
* **What an upsert may overwrite**: the two hashes, where a ref is registered again with the same
  source and selector; `KeepsEvidence` says when they stay.
-/
import PosseClient.HashRefs.Capabilities
import PosseClient.Lib.Runs

namespace PosseClient

open Table

/-! ## 1. Rows by their key -/

structure CapabilitySound (db : CapabilityDb) : Prop where
  keys : (db.evidence.map (·.key)).Nodup
  rows : ∀ row ∈ db.evidence, row.ref ∈ takenRefs db.aliases ∧
    matchesHashRefAlias row.ref = true ∧ matchesHashRefAlias row.sourceRef = true ∧
      row.scopeKey ≠ ""

section Rows

variable {rows : List CapabilityRow} {row new : CapabilityRow} {ids : HashRefIds} {ref : String}

/-- The rows that `evidence` reads. -/
theorem mem_select_own : row ∈ select (fun row : CapabilityRow =>
      decide (row.ref = normalizeHashRefAlias ref) && (decide (row.scopeKey = scopeKey ids) ||
        false && ids.attemptId.isSome && decide (row.attemptId = ids.attemptId))) rows ↔
    row ∈ rows ∧ row.key = (normalizeHashRefAlias ref, scopeKey ids) := by
  rw [List.mem_filter]
  simp [CapabilityRow.key, Prod.ext_iff]

theorem capabilityRow_some (h : capabilityRow rows false ids ref = some row) :
    row ∈ rows ∧ row.key = (normalizeHashRefAlias ref, scopeKey ids) :=
  mem_select_own.mp (first_mem h)

/-- `evidence` finds the row of the key. -/
theorem capabilityRow_of_mem (hkeys : (rows.map (·.key)).Nodup) (hrow : row ∈ rows)
    (hkey : row.key = (normalizeHashRefAlias ref, scopeKey ids)) :
    capabilityRow rows false ids ref = some row := by
  cases hfound : capabilityRow rows false ids ref with
  | none =>
    have hmem := mem_select_own.mpr ⟨hrow, hkey⟩
    rw [first_eq_none hfound] at hmem
    cases hmem
  | some found =>
    obtain ⟨hmem, hfoundKey⟩ := capabilityRow_some hfound
    rw [eq_of_key_eq hkeys hmem hrow (hfoundKey.trans hkey.symm)]

theorem overwrite_key (row new : CapabilityRow) : (row.overwrite new).key = row.key := rfl

/-- The rows after an insertion. -/
theorem mem_insertCapability (h : row ∈ insertCapability rows new) :
    row ∈ rows ∨ row = new ∨ ∃ old ∈ rows, old.key = new.key ∧ row = old.overwrite new := by
  unfold insertCapability at h
  split_ifs at h
  · rcases mem_updateWhere_cases h with ⟨hold, -⟩ | ⟨old, hold, hkey, rfl⟩
    · exact Or.inl hold
    · exact Or.inr (Or.inr ⟨old, hold, of_decide_eq_true hkey, rfl⟩)
  · rcases List.mem_append.mp h with hold | hnew
    · exact Or.inl hold
    · exact Or.inr (Or.inl (List.mem_singleton.mp hnew))

theorem nodup_insertCapability (h : (rows.map (·.key)).Nodup) :
    ((insertCapability rows new).map (·.key)).Nodup := by
  unfold insertCapability
  split_ifs with hany
  · rw [map_key_updateWhere fun row _ => overwrite_key row new]
    exact h
  · rw [List.map_append, List.nodup_append]
    refine ⟨h, by simp, fun key hkey key' hkey' heq => ?_⟩
    obtain ⟨row, hrow, rfl⟩ := List.mem_map.mp hkey
    refine hany (List.any_eq_true.mpr ⟨row, hrow, ?_⟩)
    simpa [heq] using hkey'

/-- A row of the table after an insertion: as it was, or overwritten. -/
theorem lookup_insertCapability {key : String × String} (h : lookup (·.key) key rows = some row) :
    lookup (·.key) key (insertCapability rows new) =
      some (if row.key = new.key then row.overwrite new else row) := by
  unfold insertCapability
  split_ifs with hany hkey hkey
  · rw [lookup_updateWhere fun row _ => overwrite_key row new, h]
    simp [hkey]
  · rw [lookup_updateWhere fun row _ => overwrite_key row new, h]
    simp [hkey]
  · refine absurd (List.any_eq_true.mpr ⟨row, lookup_mem h, ?_⟩) hany
    simpa using hkey
  · rw [KeyedMap.lookup_concat, h]
    rfl

/-- The inserted row is found. -/
theorem exists_insertCapability :
    ∃ row ∈ insertCapability rows new, row.key = new.key := by
  unfold insertCapability
  split_ifs with hany
  · obtain ⟨row, hrow, hkey⟩ := List.any_eq_true.mp hany
    exact ⟨row.overwrite new, mem_updateWhere_of hrow hkey, of_decide_eq_true hkey⟩
  · exact ⟨new, by simp, rfl⟩

end Rows

/-! ## 2. What a call does to the evidence -/

/-- More refs may be taken, and the evidence is as it was. -/
structure AliasesGrow (db db' : CapabilityDb) : Prop where
  evidence : db'.evidence = db.evidence
  taken : ∀ ref ∈ takenRefs db.aliases, ref ∈ takenRefs db'.aliases

theorem AliasesGrow.refl (db : CapabilityDb) : AliasesGrow db db := ⟨rfl, fun _ h => h⟩

theorem AliasesGrow.trans {a b c : CapabilityDb} (hab : AliasesGrow a b) (hbc : AliasesGrow b c) :
    AliasesGrow a c :=
  ⟨hbc.evidence.trans hab.evidence, fun ref h => hbc.taken ref (hab.taken ref h)⟩

section Calls

variable {sha256 : String → String} {db db' : CapabilityDb} {ids : HashRefIds}
  {args : CapabilityArgs} {randomInt randomInt' : ℕ → ℕ → ℕ → Fin 36} {now : ℤ}
  {ref label publicRef source : String}

theorem normalizedRef_ok (h : normalizedRef ref label = .ok source) :
    source = normalizeHashRefAlias ref ∧ matchesHashRefAlias source = true := by
  unfold normalizedRef at h
  dsimp only at h
  split_ifs at h with hmatches
  cases h
  exact ⟨rfl, hmatches⟩

theorem normalizedRef_of_matches (h : matchesHashRefAlias (normalizeHashRefAlias ref) = true) :
    normalizedRef ref label = .ok (normalizeHashRefAlias ref) := by
  unfold normalizedRef
  dsimp only
  rw [if_pos h]

/-- A ref that is minted was free, one that is there is kept. -/
theorem publicRefOrMint_ok {chosen : String}
    (h : publicRefOrMint db publicRef randomInt = .ok (db', chosen)) :
    AliasesGrow db db' ∧
      (publicRef = "" ∧ chosen ∉ takenRefs db.aliases ∧ chosen ∈ takenRefs db'.aliases ∧
          matchesHashRefAlias chosen = true ∨
        publicRef ≠ "" ∧ chosen = publicRef ∧ db' = db) := by
  unfold publicRefOrMint at h
  split_ifs at h with hempty
  · cases hmint : mint db.aliases randomInt with
    | error message =>
      rw [hmint] at h
      cases h
    | ok minted =>
      rw [hmint] at h
      cases h
      obtain ⟨hfree, htaken, hmatches⟩ := mint_ok hmint
      refine ⟨⟨rfl, fun r hr => ?_⟩, Or.inl ⟨hempty, hfree, ?_, hmatches⟩⟩
      · change r ∈ takenRefs minted.1
        rw [htaken]
        exact List.mem_append_left _ hr
      · change minted.2 ∈ takenRefs minted.1
        rw [htaken]
        exact List.mem_append_right _ (List.mem_singleton.mpr rfl)
  · cases h
    exact ⟨AliasesGrow.refl db, Or.inr ⟨hempty, rfl, rfl⟩⟩

theorem reserveIfFree_ok (h : reserveIfFree db publicRef = .ok db') :
    AliasesGrow db db' ∧
      (matchesHashRefAlias publicRef = true → publicRef ∈ takenRefs db'.aliases) := by
  unfold reserveIfFree at h
  split_ifs at h with hexists
  · cases h
    refine ⟨AliasesGrow.refl db, fun hmatches => ?_⟩
    have htaken := refExists_iff.mp hexists
    rwa [normalizeHashRefAlias_of_matches hmatches] at htaken
  · cases hreserve : reserve db.aliases publicRef with
    | error message =>
      rw [hreserve] at h
      cases h
    | ok aliases =>
      rw [hreserve] at h
      cases h
      have htaken := reserve_ok hreserve
      refine ⟨⟨rfl, fun r hr => ?_⟩, fun hmatches => ?_⟩
      · change r ∈ takenRefs aliases
        rw [htaken]
        exact List.mem_append_left _ hr
      · change publicRef ∈ takenRefs aliases
        rw [htaken, normalizeHashRefAlias_of_matches hmatches]
        exact List.mem_append_right _ (List.mem_singleton.mpr rfl)

/-- **A registration** throws, or inserts one row: under a free ref, or under the ref it was given,
where the row of that ref has the same source and selector. -/
theorem registerEvidence_cases (sha256 : String → String) (db : CapabilityDb) (ids : HashRefIds)
    (args : CapabilityArgs) (randomInt : ℕ → ℕ → ℕ → Fin 36) (now : ℤ) :
    (AliasesGrow db (db.registerEvidence sha256 ids args randomInt now).1 ∧
      ∃ message, (db.registerEvidence sha256 ids args randomInt now).2 = .error message) ∨
    ∃ publicRef grown, AliasesGrow db grown ∧ publicRef ∈ takenRefs grown.aliases ∧
      matchesHashRefAlias publicRef = true ∧
      matchesHashRefAlias (normalizeHashRefAlias args.sourceRef) = true ∧
      (let row := capabilityOf sha256 ids publicRef (normalizeHashRefAlias args.sourceRef) args now
      let after : CapabilityDb := { grown with evidence := insertCapability db.evidence row }
      db.registerEvidence sha256 ids args randomInt now =
        (after, .ok (after.evidenceOf ids publicRef))) ∧
      (publicRef ∉ takenRefs db.aliases ∨
        ∃ given ∈ args.ref, normalizeHashRefAlias given = publicRef ∧
          differs (db.evidenceOf ids publicRef) (normalizeHashRefAlias args.sourceRef)
            args.selector = false) := by
  unfold CapabilityDb.registerEvidence
  cases hsource : normalizedRef args.sourceRef "evidence source ref" with
  | error message => exact Or.inl ⟨AliasesGrow.refl db, message, rfl⟩
  | ok source =>
    obtain ⟨rfl, hsourceMatches⟩ := normalizedRef_ok hsource
    cases hgiven : givenRef args.ref "evidence ref" with
    | error message => exact Or.inl ⟨AliasesGrow.refl db, message, rfl⟩
    | ok given =>
      dsimp only
      generalize hexisting : (if given = "" then none else db.evidenceOf ids given) = existing
      generalize hpublic : (if differs existing (normalizeHashRefAlias args.sourceRef)
        args.selector = true then "" else given) = publicRef
      cases hminted : publicRefOrMint db publicRef randomInt with
      | error message => exact Or.inl ⟨AliasesGrow.refl db, message, rfl⟩
      | ok minted =>
        obtain ⟨db₁, chosen⟩ := minted
        obtain ⟨hgrow, hchosen⟩ := publicRefOrMint_ok hminted
        dsimp only
        cases hreserved : reserveIfFree db₁ chosen with
        | error message => exact Or.inl ⟨hgrow, message, rfl⟩
        | ok grown =>
          obtain ⟨hgrow', htaken⟩ := reserveIfFree_ok hreserved
          have hevidence : grown.evidence = db.evidence := (hgrow.trans hgrow').evidence
          have hchosenMatches : matchesHashRefAlias chosen = true ∧
              (chosen ∉ takenRefs db.aliases ∨
                ∃ value ∈ args.ref, normalizeHashRefAlias value = chosen ∧
                  differs (db.evidenceOf ids chosen) (normalizeHashRefAlias args.sourceRef)
                    args.selector = false) := by
            rcases hchosen with ⟨-, hfree, -, hmatches⟩ | ⟨hne, rfl, -⟩
            · exact ⟨hmatches, Or.inl hfree⟩
            · -- the ref that was given
              split_ifs at hpublic with hdiffers
              · exact absurd hpublic.symm hne
              · subst hpublic
                rw [if_neg hne] at hexisting
                unfold givenRef at hgiven
                cases hvalue : args.ref with
                | none =>
                  rw [hvalue] at hgiven
                  cases hgiven
                  exact absurd rfl hne
                | some value =>
                  rw [hvalue] at hgiven
                  obtain ⟨heq, hmatches⟩ := normalizedRef_ok hgiven
                  refine ⟨hmatches, Or.inr ⟨value, rfl, heq.symm, ?_⟩⟩
                  rw [hexisting]
                  exact Bool.eq_false_iff.mpr hdiffers
          refine Or.inr ⟨chosen, grown, hgrow.trans hgrow', htaken hchosenMatches.1,
            hchosenMatches.1, hsourceMatches, ?_, hchosenMatches.2⟩
          dsimp only
          rw [hevidence]

/-- A registration under a taken ref whose row has the same source and selector goes through. -/
theorem registerEvidence_again {value : String} (hvalue : args.ref = some value)
    (hmatches : matchesHashRefAlias (normalizeHashRefAlias value) = true)
    (hsource : matchesHashRefAlias (normalizeHashRefAlias args.sourceRef) = true)
    (htaken : normalizeHashRefAlias value ∈ takenRefs db.aliases)
    (hsame : differs (db.evidenceOf ids (normalizeHashRefAlias value))
      (normalizeHashRefAlias args.sourceRef) args.selector = false) :
    (db.registerEvidence sha256 ids args randomInt now).1.evidence =
      insertCapability db.evidence (capabilityOf sha256 ids (normalizeHashRefAlias value)
        (normalizeHashRefAlias args.sourceRef) args now) := by
  have hne := ne_empty_of_matches hmatches
  have hgiven : givenRef args.ref "evidence ref" = .ok (normalizeHashRefAlias value) := by
    rw [hvalue, givenRef, normalizedRef_of_matches hmatches]
  have hexists : refExists db.aliases (normalizeHashRefAlias value) = true := by
    rw [refExists_iff, normalizeHashRefAlias_of_matches hmatches]
    exact htaken
  unfold CapabilityDb.registerEvidence
  rw [normalizedRef_of_matches hsource, hgiven]
  dsimp only
  rw [if_neg hne, hsame]
  simp only [Bool.false_eq_true, if_false]
  unfold publicRefOrMint
  rw [if_neg hne]
  dsimp only
  unfold reserveIfFree
  rw [if_pos hexists]

theorem issueTraversal_grow (sha256 : String → String) (db : CapabilityDb) (ids : HashRefIds)
    (args : CapabilityArgs) (randomInt randomInt' : ℕ → ℕ → ℕ → Fin 36) (now : ℤ) :
    AliasesGrow db (db.issueTraversal sha256 ids args randomInt randomInt' now).1 := by
  unfold CapabilityDb.issueTraversal
  cases normalizedRef args.sourceRef "traversal source ref" with
  | error message => exact AliasesGrow.refl db
  | ok source =>
    cases givenRef args.ref "traversal ref" with
    | error message => exact AliasesGrow.refl db
    | ok given =>
      dsimp only
      generalize (if given ≠ "" ∧ (db.evidenceOf ids given).isSome = true then "" else given) = wanted
      cases hminted : publicRefOrMint db wanted randomInt with
      | error message => exact AliasesGrow.refl db
      | ok minted =>
        obtain ⟨db₁, chosen⟩ := minted
        have hgrow := (publicRefOrMint_ok hminted).1
        dsimp only
        split_ifs with hdiffers
        · cases hagain : publicRefOrMint db₁ "" randomInt' with
          | error message => exact hgrow
          | ok again =>
            have hagainGrow := hgrow.trans (publicRefOrMint_ok hagain).1
            exact ⟨hagainGrow.evidence, hagainGrow.taken⟩
        · cases hreserved : reserveIfFree db₁ chosen with
          | error message => exact hgrow
          | ok grown =>
            have hreservedGrow := hgrow.trans (reserveIfFree_ok hreserved).1
            exact ⟨hreservedGrow.evidence, hreservedGrow.taken⟩

/-- What a call registers as evidence. -/
def CapabilityDb.registration (db : CapabilityDb) (op : CapabilityOp) : Option CapabilityArgs :=
  if scopeKey op.ids = "" then none
  else match op.call with
    | .registerEvidence args _ => some args
    | .promoteTraversal ref args _ => db.promoted op.ids ref args
    | _ => none

/-- **A call** leaves the evidence as it is, or is a registration. -/
theorem capabilityCall_cases (sha256 : String → String) (db : CapabilityDb) (op : CapabilityOp) :
    db.registration op = none ∧ AliasesGrow db (capabilityStep sha256 db op) ∨
    ∃ args randomInt, db.registration op = some args ∧ scopeKey op.ids ≠ "" ∧
      capabilityCall sha256 db op = db.registerEvidence sha256 op.ids args randomInt op.now := by
  unfold CapabilityDb.registration capabilityStep capabilityCall
  by_cases hscope : scopeKey op.ids = ""
  · rw [if_pos hscope, if_pos hscope]
    exact Or.inl ⟨rfl, AliasesGrow.refl db⟩
  · rw [if_neg hscope, if_neg hscope]
    cases op.call with
    | issueTraversal args randomInt randomInt' =>
      exact Or.inl ⟨rfl, issueTraversal_grow sha256 db op.ids args randomInt randomInt' op.now⟩
    | registerEvidence args randomInt => exact Or.inr ⟨args, randomInt, rfl, hscope, rfl⟩
    | promoteTraversal ref args randomInt =>
      dsimp only
      unfold CapabilityDb.promoteTraversal
      cases hpromoted : db.promoted op.ids ref args with
      | none => exact Or.inl ⟨rfl, AliasesGrow.refl db⟩
      | some promoted => exact Or.inr ⟨promoted, randomInt, rfl, hscope, rfl⟩
    | evidence ref => exact Or.inl ⟨rfl, AliasesGrow.refl db⟩
    | traversal ref => exact Or.inl ⟨rfl, AliasesGrow.refl db⟩

end Calls

/-! ## 3. One call -/

section Step

variable {sha256 : String → String} {db : CapabilityDb} {op : CapabilityOp}

theorem CapabilitySound.of_grow {db' : CapabilityDb} (h : CapabilitySound db)
    (hgrow : AliasesGrow db db') : CapabilitySound db' := by
  refine ⟨?_, fun row hrow => ?_⟩
  · rw [hgrow.evidence]
    exact h.keys
  · rw [hgrow.evidence] at hrow
    obtain ⟨htaken, hrest⟩ := h.rows row hrow
    exact ⟨hgrow.taken _ htaken, hrest⟩

theorem CapabilitySound.step (h : CapabilitySound db) :
    CapabilitySound (capabilityStep sha256 db op) := by
  rcases capabilityCall_cases sha256 db op with ⟨-, hgrow⟩ | ⟨args, randomInt, -, hscope, hcall⟩
  · exact h.of_grow hgrow
  · unfold capabilityStep
    rw [hcall]
    rcases registerEvidence_cases sha256 db op.ids args randomInt op.now with
      ⟨hgrow, -⟩ | ⟨publicRef, grown, hgrow, htaken, hmatches, hsource, hafter, -⟩
    · exact h.of_grow hgrow
    · rw [hafter]
      refine ⟨nodup_insertCapability h.keys, fun row hrow => ?_⟩
      rcases mem_insertCapability hrow with hold | rfl | ⟨old, hold, -, rfl⟩
      · exact (h.of_grow hgrow).rows row (hgrow.evidence.symm ▸ hold)
      · exact ⟨htaken, hmatches, hsource, hscope⟩
      · obtain ⟨hrefTaken, hrefMatches, -, hkept⟩ :=
          (h.of_grow hgrow).rows old (hgrow.evidence.symm ▸ hold)
        exact ⟨hrefTaken, hrefMatches, hsource, hkept⟩

/-- Every row of the evidence is still there, with its source, its selector and its hashes. -/
def EvidenceKept (db db' : CapabilityDb) : Prop :=
  ∀ key row, lookup (·.key) key db.evidence = some row →
    ∃ row', lookup (·.key) key db'.evidence = some row' ∧ row'.sourceRef = row.sourceRef ∧
      row'.selectorJson = row.selectorJson ∧
      (∀ hash, row.sourceContentHash = some hash → hash ≠ "" →
        row'.sourceContentHash = some hash) ∧
      ∀ view, row.viewSha256 = some view → row'.viewSha256 = some view

theorem EvidenceKept.refl (db : CapabilityDb) : EvidenceKept db db :=
  fun _ row hrow => ⟨row, hrow, rfl, rfl, fun _ hhash _ => hhash, fun _ hview => hview⟩

theorem EvidenceKept.trans {a b c : CapabilityDb} (hab : EvidenceKept a b)
    (hbc : EvidenceKept b c) : EvidenceKept a c := by
  intro key row hrow
  obtain ⟨row', hrow', hsource, hselector, hhash, hview⟩ := hab key row hrow
  obtain ⟨row'', hrow'', hsource', hselector', hhash', hview'⟩ := hbc key row' hrow'
  exact ⟨row'', hrow'', hsource'.trans hsource, hselector'.trans hselector,
    fun hash hsome hne => hhash' hash (hhash hash hsome hne) hne,
    fun view hsome => hview' view (hview view hsome)⟩

/-- A call registers no ref of its scope again with the same source and selector but another hash
of the source, or another view. -/
def KeepsEvidence (sha256 : String → String) (db : CapabilityDb) (op : CapabilityOp) : Prop :=
  ∀ args, db.registration op = some args → ∀ given, args.ref = some given →
    ∀ row, lookup (·.key) (normalizeHashRefAlias given, scopeKey op.ids) db.evidence = some row →
      row.sourceRef = normalizeHashRefAlias args.sourceRef → row.selectorJson = args.selector →
        (∀ hash, row.sourceContentHash = some hash → hash ≠ "" →
          ∀ hash', args.sourceContentHash = some hash' → hash' = hash) ∧
        ∀ view, row.viewSha256 = some view →
          ∀ text, args.viewText = some text → sha256 text = view

/-- The row of a key is what `evidence` reads. -/
theorem CapabilitySound.evidenceOf (h : CapabilitySound db) {ids : HashRefIds} {ref : String}
    {row : CapabilityRow} (hmatches : matchesHashRefAlias ref = true)
    (hrow : lookup (·.key) (ref, scopeKey ids) db.evidence = some row) :
    db.evidenceOf ids ref = some (deserializeCapability row) := by
  unfold CapabilityDb.evidenceOf
  rw [capabilityRow_of_mem h.keys (lookup_mem hrow)]
  · rfl
  · rw [lookup_key hrow, normalizeHashRefAlias_of_matches hmatches]

theorem differs_eq_false {row : CapabilityRow} {source : String} {selector : Option String} :
    differs (some (deserializeCapability row)) source selector = false ↔
      row.sourceRef = source ∧ row.selectorJson = selector := by
  simp [differs, deserializeCapability]

theorem CapabilitySound.evidenceKept (h : CapabilitySound db) (hok : KeepsEvidence sha256 db op) :
    EvidenceKept db (capabilityStep sha256 db op) := by
  rcases capabilityCall_cases sha256 db op with
    ⟨-, hgrow⟩ | ⟨args, randomInt, hregistration, -, hcall⟩
  · intro key row hrow
    rw [hgrow.evidence]
    exact EvidenceKept.refl db key row hrow
  · unfold capabilityStep
    rw [hcall]
    rcases registerEvidence_cases sha256 db op.ids args randomInt op.now with
      ⟨hgrow, -⟩ | ⟨publicRef, grown, -, -, hmatches, -, hafter, hpublic⟩
    · intro key row hrow
      rw [hgrow.evidence]
      exact EvidenceKept.refl db key row hrow
    · intro key row hrow
      rw [hafter]
      refine ⟨_, lookup_insertCapability hrow, ?_⟩
      split_ifs with hkey
      swap
      · exact ⟨rfl, rfl, fun _ hhash _ => hhash, fun _ hview => hview⟩
      -- the row of this ref and this scope is overwritten
      have hrowKey : key = (publicRef, scopeKey op.ids) := (lookup_key hrow).symm.trans hkey
      subst hrowKey
      have hrefEq : row.ref = publicRef := congrArg Prod.fst hkey
      rcases hpublic with hfree | ⟨given, hgiven, rfl, hsame⟩
      · have htaken := (h.rows row (lookup_mem hrow)).1
        rw [hrefEq] at htaken
        exact absurd htaken hfree
      · rw [h.evidenceOf hmatches hrow] at hsame
        obtain ⟨hsource, hselector⟩ := differs_eq_false.mp hsame
        obtain ⟨hhash, hview⟩ := hok args hregistration given hgiven row hrow hsource hselector
        refine ⟨hsource.symm, hselector.symm, fun hash hsome hne => ?_, fun view hsome => ?_⟩
        · change (args.sourceContentHash.or row.sourceContentHash) = some hash
          cases hargs : args.sourceContentHash with
          | none => exact hsome
          | some hash' => rw [hhash hash hsome hne hash' hargs, Option.some_or]
        · change ((args.viewText.map sha256).or row.viewSha256) = some view
          cases hargs : args.viewText with
          | none => exact hsome
          | some text => rw [Option.map_some, hview view hsome text hargs, Option.some_or]

/-- A call outside the condition overwrites a hash. -/
theorem CapabilitySound.not_evidenceKept (h : CapabilitySound db)
    (hbad : ¬ KeepsEvidence sha256 db op) : ¬ EvidenceKept db (capabilityStep sha256 db op) := by
  intro hkept
  refine hbad fun args hregistration given hgiven row hrow hsource hselector => ?_
  obtain ⟨-, hmatches, hsourceMatches, -⟩ := h.rows row (lookup_mem hrow)
  have hrefEq : row.ref = normalizeHashRefAlias given := congrArg Prod.fst (lookup_key hrow)
  rw [hrefEq] at hmatches
  rw [hsource] at hsourceMatches
  have htaken := (h.rows row (lookup_mem hrow)).1
  rw [hrefEq] at htaken
  rcases capabilityCall_cases sha256 db op with
    ⟨hnone, -⟩ | ⟨args', randomInt, hregistration', -, hcall⟩
  · rw [hnone] at hregistration
    cases hregistration
  · obtain rfl : args = args' := Option.some.inj (hregistration.symm.trans hregistration')
    have hsame := differs_eq_false.mpr ⟨hsource, hselector⟩
    rw [← h.evidenceOf hmatches hrow] at hsame
    have hafter : (db.registerEvidence sha256 op.ids args randomInt op.now).1.evidence = _ :=
      registerEvidence_again hgiven hmatches hsourceMatches htaken hsame
    obtain ⟨row', hrow', -, -, hhash, hview⟩ := hkept _ row hrow
    unfold capabilityStep at hrow'
    have hkey : row.key = (capabilityOf sha256 op.ids (normalizeHashRefAlias given)
        (normalizeHashRefAlias args.sourceRef) args op.now).key := lookup_key hrow
    rw [hcall, hafter, lookup_insertCapability hrow, if_pos hkey] at hrow'
    obtain rfl := Option.some.inj hrow'
    refine ⟨fun hash hsome hne hash' hargs => ?_, fun view hsome text hargs => ?_⟩
    · have hnow := hhash hash hsome hne
      change (args.sourceContentHash.or row.sourceContentHash) = some hash at hnow
      rw [hargs, Option.some_or] at hnow
      exact Option.some.inj hnow
    · have hnow := hview view hsome
      change ((args.viewText.map sha256).or row.viewSha256) = some view at hnow
      rw [hargs, Option.map_some, Option.some_or] at hnow
      exact Option.some.inj hnow

end Step

/-! ## 4. Runs -/

section Runs

variable {sha256 : String → String}

/-- The database before the first call: refs may be taken, none is a capability. -/
theorem capabilitySound_initial (aliases : List HashAliasRow) :
    CapabilitySound { aliases := aliases } :=
  ⟨List.nodup_nil, fun _ hrow => by cases hrow⟩

theorem capabilitySound_run (aliases : List HashAliasRow) (ops : List CapabilityOp) :
    CapabilitySound (Runs.run (capabilityStep sha256) { aliases := aliases } ops) := by
  have hstep : ∀ db op, CapabilitySound db → CapabilitySound (capabilityStep sha256 db op) :=
    fun _ _ h => h.step
  exact Runs.run_invariant_of_forall hstep (capabilitySound_initial aliases)

/-- Every stretch of a run keeps the evidence if its calls meet the condition, and only then. -/
theorem evidenceKept_iff {db : CapabilityDb} (h : CapabilitySound db) (ops : List CapabilityOp) :
    (∀ before middle after, before ++ middle ++ after = ops →
      EvidenceKept (Runs.run (capabilityStep sha256) db before)
        (Runs.run (capabilityStep sha256) db (before ++ middle))) ↔
      Runs.Meets (capabilityStep sha256) (KeepsEvidence sha256) db ops := by
  have hstep : ∀ db op, CapabilitySound db → KeepsEvidence sha256 db op →
      CapabilitySound (capabilityStep sha256 db op) := fun _ _ hsound _ => hsound.step
  constructor
  · intro hkept
    induction ops generalizing db with
    | nil => trivial
    | cons op ops ih =>
      refine ⟨?_, ih h.step fun before middle after hsplit => ?_⟩
      · by_contra hbad
        exact h.not_evidenceKept hbad (hkept [] [op] ops rfl)
      · exact hkept (op :: before) middle after (by rw [← hsplit]; rfl)
  · rintro hmeets before middle after rfl
    obtain ⟨hpart, -⟩ := Runs.meets_append.mp hmeets
    obtain ⟨hbefore, hmiddle⟩ := Runs.meets_append.mp hpart
    rw [Runs.run_append]
    refine Runs.run_rel EvidenceKept.refl (fun _ _ _ => EvidenceKept.trans) hstep
      (fun db op hsound hok => hsound.evidenceKept hok) ?_ hmiddle
    exact Runs.run_invariant hstep h hbefore

/-- The call registered the ref in its scope. -/
def CapabilityOp.registers (sha256 : String → String) (op : CapabilityOp) (db : CapabilityDb)
    (ref : String) : Prop :=
  (∃ args randomInt, op.call = .registerEvidence args randomInt ∨
    ∃ traversalRef, op.call = .promoteTraversal traversalRef args randomInt) ∧
  ∃ answer, (capabilityCall sha256 db op).2 = .ok (some answer) ∧ answer.ref = ref

/-- The rows of the evidence have been registered, each in its scope. -/
theorem evidence_registered (aliases : List HashAliasRow) (ops : List CapabilityOp) :
    ∀ row ∈ (Runs.run (capabilityStep sha256) { aliases := aliases } ops).evidence,
      ∃ before op after, before ++ op :: after = ops ∧ scopeKey op.ids = row.scopeKey ∧
        op.registers sha256 (Runs.run (capabilityStep sha256) { aliases := aliases } before)
          row.ref := by
  induction ops using List.reverseRecOn with
  | nil =>
    intro row hrow
    cases hrow
  | append_singleton ops op ih =>
    intro row hrow
    rw [Runs.run_append, Runs.run_cons, Runs.run_nil] at hrow
    have hsound : CapabilitySound (Runs.run (capabilityStep sha256) { aliases := aliases } ops) :=
      capabilitySound_run aliases ops
    generalize hdb : Runs.run (capabilityStep sha256) { aliases := aliases } ops = db at ih hrow hsound
    have hold : ∀ old ∈ db.evidence, old.key = row.key →
        ∃ before op' after, before ++ op' :: after = ops ++ [op] ∧
          scopeKey op'.ids = row.scopeKey ∧ op'.registers sha256
            (Runs.run (capabilityStep sha256) { aliases := aliases } before) row.ref := by
      intro old hmem hkey
      obtain ⟨before, op', after, hsplit, hscope, hregisters⟩ := ih old hmem
      have hrefEq : old.ref = row.ref := congrArg Prod.fst hkey
      rw [hrefEq] at hregisters
      refine ⟨before, op', after ++ [op], ?_, hscope.trans (congrArg Prod.snd hkey), hregisters⟩
      rw [← hsplit]
      simp
    rcases capabilityCall_cases sha256 db op with
      ⟨-, hgrow⟩ | ⟨args, randomInt, hregistration, hscope, hcall⟩
    · rw [hgrow.evidence] at hrow
      exact hold row hrow rfl
    · unfold capabilityStep at hrow
      rw [hcall] at hrow
      rcases registerEvidence_cases sha256 db op.ids args randomInt op.now with
        ⟨hgrow, -⟩ | ⟨publicRef, grown, -, -, hmatches, -, hafter, -⟩
      · rw [hgrow.evidence] at hrow
        exact hold row hrow rfl
      · rw [hafter] at hrow
        generalize hnew : capabilityOf sha256 op.ids publicRef (normalizeHashRefAlias args.sourceRef)
          args op.now = new at hrow hafter
        have hkey : new.key = (publicRef, scopeKey op.ids) := by rw [← hnew]; rfl
        have hnewest : row.key = new.key → ∃ before op' after, before ++ op' :: after = ops ++ [op] ∧
            scopeKey op'.ids = row.scopeKey ∧ op'.registers sha256
              (Runs.run (capabilityStep sha256) { aliases := aliases } before) row.ref := by
          intro heq
          rw [hkey] at heq
          refine ⟨ops, op, [], rfl, (congrArg Prod.snd heq).symm, ?_, ?_⟩
          · unfold CapabilityDb.registration at hregistration
            rw [if_neg hscope] at hregistration
            cases hop : op.call with
            | registerEvidence args' randomInt' => exact ⟨args', randomInt', Or.inl rfl⟩
            | promoteTraversal ref args' randomInt' => exact ⟨args', randomInt', Or.inr ⟨ref, rfl⟩⟩
            | _ =>
              rw [hop] at hregistration
              cases hregistration
          · rw [hdb, hcall, hafter]
            obtain ⟨found, hfound, hfoundKey⟩ : ∃ found ∈ insertCapability db.evidence new,
              found.key = new.key := exists_insertCapability
            have hnodup : ((insertCapability db.evidence new).map (·.key)).Nodup :=
              nodup_insertCapability hsound.keys
            refine ⟨deserializeCapability found, ?_, ?_⟩
            · dsimp only
              unfold CapabilityDb.evidenceOf
              rw [capabilityRow_of_mem hnodup hfound]
              · rfl
              · rw [hfoundKey, hkey, normalizeHashRefAlias_of_matches hmatches]
            · exact congrArg Prod.fst (hfoundKey.trans (hkey.trans heq.symm))
        rcases mem_insertCapability hrow with hmem | rfl | ⟨old, -, hsame, rfl⟩
        · exact hold row hmem rfl
        · exact hnewest rfl
        · exact hnewest hsame

/-- An agent call registers a ref, for content of this hash. -/
def registerAgain (hash : String) : CapabilityOp :=
  ⟨{ agentCallId := some 7 },
    .registerEvidence ⟨some "#abcd", "#wxyz", none, some hash, none⟩ fun _ _ _ => 0, 0⟩

end Runs

end PosseClient
