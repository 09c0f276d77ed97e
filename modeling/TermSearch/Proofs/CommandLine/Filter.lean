import Mathlib.Data.Set.Operations
import TermSearch.Proofs.CommandLine.Request

namespace TermSearch.CommandLine

/-! Which records a required query keeps out. All alternatives are added after
all required queries, so a record may come in by an alternative that no required
query has seen. -/

/-- The records that a run finds satisfy all of its required queries exactly if
those do that its alternatives find. -/
theorem matches_imp_required_iff {arguments : List String}
    {surroundings : Surroundings} {verbosity : Nat}
    {request : TranslateRequest}
    (hinvocation : Invocation.ofArguments? arguments =
      some ⟨verbosity, .translate request⟩)
    (hsuccess : (execute arguments surroundings).status = .success) :
    ∃ config document, surroundings.config.result = .ok config ∧
      (execute arguments surroundings).output =
        request.rendered document ++ "\n" ∧
      ((∀ record : Record, document.query.Matches record →
          ∀ required ∈ request.must,
            (request.query.translator config).Finds required record) ↔
        ∀ record : Record, ∀ alternative ∈ request.should,
          (request.query.translator config).Finds alternative record →
          ∀ required ∈ request.must,
            (request.query.translator config).Finds required record) := by
  obtain ⟨config, text, document, hconfig, -, houtput, hmatches⟩ :=
    document_of_success hinvocation hsuccess
  refine ⟨config, document, hconfig, houtput, ?_, ?_⟩
  · intro h record alternative hmem hfinds
    exact h record ((hmatches record).mpr (.inr ⟨alternative, hmem, hfinds⟩))
  · intro h record hrecord
    rcases (hmatches record).mp hrecord with
      ⟨-, hrequired⟩ | ⟨alternative, hmem, hfinds⟩
    · exact hrequired
    · exact h record alternative hmem hfinds

section

/-! A run in a bare directory that requires a tenant. -/

private theorem parse_tenant :
    SyntaxTree.parse "tenant: acme" =
      .ok ⟨[⟨some ⟨[⟨"tenant", ⟨0, 6⟩⟩], ⟨0, 7⟩⟩,
        ⟨[⟨[.raw "acme" ⟨8, 12⟩], ⟨8, 12⟩⟩], ⟨8, 12⟩⟩, ⟨0, 12⟩⟩], ⟨0, 12⟩⟩ := by
  decide +kernel

private theorem parse_title :
    SyntaxTree.parse "title: foo" =
      .ok ⟨[⟨some ⟨[⟨"title", ⟨0, 5⟩⟩], ⟨0, 6⟩⟩,
        ⟨[⟨[.raw "foo" ⟨7, 10⟩], ⟨7, 10⟩⟩], ⟨7, 10⟩⟩, ⟨0, 10⟩⟩], ⟨0, 10⟩⟩ := by
  decide +kernel

private theorem finds_tenant {record : Record} :
    Config.standard.translator.Finds "tenant: acme" record ↔
      "acme" ∈ record "tenant" := by
  rw [Translator.finds_iff_of_parse parse_tenant (.inl (by decide))]
  simp [QueryGroup.Matches, QueryGroup.fieldNames]

private theorem config_bare :
    (Surroundings.config
        ⟨.ofEntries [], ⟨"/", ["work"]⟩, none, .empty⟩).result =
      .ok .standard :=
  rfl

private theorem run_with_alternative {alternative : String} {tree : SyntaxTree}
    (h : SyntaxTree.parse alternative = .ok tree) :
    (TranslateRequest.run
      ⟨⟨["title: foo"], [], none, none⟩, ["tenant: acme"], [alternative], true⟩
      ⟨.ofEntries [], ⟨"/", ["work"]⟩, none, .empty⟩).result = .ok () := by
  have hquery {text : String} {tree : SyntaxTree}
      (h : SyntaxTree.parse text = .ok tree) :
      ∃ query, Config.standard.translator.query text = .ok query := by
    have hdefaults : Config.standard.translator.defaultFields ≠ [] := by decide
    obtain ⟨query, hquery, -⟩ := Translator.query_of_parse h (.inl hdefaults)
    exact ⟨query, hquery⟩
  have htext : Surroundings.queryText
        ⟨.ofEntries [], ⟨"/", ["work"]⟩, none, .empty⟩ ["title: foo"] =
      .ok "title: foo" := rfl
  refine TranslateRequest.run_of_queries config_bare htext ?_
  simpa using ⟨hquery parse_title, hquery parse_tenant, hquery h⟩

/-- An alternative that repeats what is required lets nothing else in. -/
theorem matches_imp_required_iff_repeated :
    let arguments :=
      ["translate", "--must", "tenant: acme", "--should",
        "tags: rust tenant: acme", "--compact", "title: foo"]
    let surroundings : Surroundings :=
      ⟨.ofEntries [], ⟨"/", ["work"]⟩, none, .empty⟩
    let request : TranslateRequest :=
      ⟨⟨["title: foo"], [], none, none⟩, ["tenant: acme"],
        ["tags: rust tenant: acme"], true⟩
    Invocation.ofArguments? arguments = some ⟨0, .translate request⟩ ∧
      (execute arguments surroundings).status = .success ∧
      ∃ document,
        (execute arguments surroundings).output =
            request.rendered document ++ "\n" ∧
          ∀ record : Record, document.query.Matches record →
            "acme" ∈ record "tenant" := by
  intro arguments surroundings request
  have hinvocation :
      Invocation.ofArguments? arguments = some ⟨0, .translate request⟩ := by
    decide +kernel
  have hparse : SyntaxTree.parse "tags: rust tenant: acme" =
      .ok ⟨[⟨some ⟨[⟨"tags", ⟨0, 4⟩⟩], ⟨0, 5⟩⟩,
        ⟨[⟨[.raw "rust" ⟨6, 10⟩], ⟨6, 10⟩⟩], ⟨6, 10⟩⟩, ⟨0, 10⟩⟩,
        ⟨some ⟨[⟨"tenant", ⟨11, 17⟩⟩], ⟨11, 18⟩⟩,
          ⟨[⟨[.raw "acme" ⟨19, 23⟩], ⟨19, 23⟩⟩], ⟨19, 23⟩⟩, ⟨11, 23⟩⟩],
        ⟨0, 23⟩⟩ := by
    decide +kernel
  have hsuccess : (execute arguments surroundings).status = .success :=
    (status_execute hinvocation).mpr (run_with_alternative hparse)
  obtain ⟨config, document, hconfig, houtput, hiff⟩ :=
    matches_imp_required_iff hinvocation hsuccess
  obtain rfl := Except.ok.inj (config_bare.symm.trans hconfig)
  refine ⟨hinvocation, hsuccess, document, houtput, ?_⟩
  intro record hrecord
  refine finds_tenant.mp
    (hiff.mpr ?_ record hrecord "tenant: acme" (by simp [request]))
  intro other alternative halternative hfinds required hrequired
  obtain rfl := List.mem_singleton.mp halternative
  obtain rfl := List.mem_singleton.mp hrequired
  refine finds_tenant.mpr ?_
  have hgroups :=
    (Translator.finds_iff_of_parse hparse (.inl (by decide))).mp hfinds
  simpa [QueryGroup.Matches, QueryGroup.fieldNames]
    using (List.forall_mem_cons.mp hgroups).2

/-- Another alternative lets in what is not required. -/
theorem not_forall_matches_imp_required :
    ¬ ∀ (arguments : List String) (surroundings : Surroundings)
      (verbosity : Nat) (request : TranslateRequest) (config : Config)
      (document : QueryDocument),
      Invocation.ofArguments? arguments = some ⟨verbosity, .translate request⟩ →
      (execute arguments surroundings).status = .success →
      surroundings.config.result = .ok config →
      (execute arguments surroundings).output =
        request.rendered document ++ "\n" →
      ∀ record : Record, document.query.Matches record →
        ∀ required ∈ request.must,
          (request.query.translator config).Finds required record := by
  intro h
  have hinvocation : Invocation.ofArguments? ["translate", "--must",
        "tenant: acme", "--should", "tags: rust", "--compact", "title: foo"] =
      some ⟨0,
        .translate ⟨⟨["title: foo"], [], none, none⟩, ["tenant: acme"],
          ["tags: rust"], true⟩⟩ := by
    decide +kernel
  have hparse : SyntaxTree.parse "tags: rust" =
      .ok ⟨[⟨some ⟨[⟨"tags", ⟨0, 4⟩⟩], ⟨0, 5⟩⟩,
        ⟨[⟨[.raw "rust" ⟨6, 10⟩], ⟨6, 10⟩⟩], ⟨6, 10⟩⟩, ⟨0, 10⟩⟩], ⟨0, 10⟩⟩ := by
    decide +kernel
  have hsuccess :=
    (status_execute hinvocation).mpr (run_with_alternative hparse)
  obtain ⟨config, text, document, hconfig, -, houtput, hmatches⟩ :=
    document_of_success hinvocation hsuccess
  have hrequired :=
    h _ _ _ _ config document hinvocation hsuccess hconfig houtput
  obtain rfl := Except.ok.inj (config_bare.symm.trans hconfig)
  let record : Record := fun field => { text | field = "tags" ∧ text = "rust" }
  have hrust : Config.standard.translator.Finds "tags: rust" record := by
    rw [Translator.finds_iff_of_parse hparse (.inl (by decide))]
    simp [QueryGroup.Matches, QueryGroup.fieldNames, record]
  have hrecord :=
    (hmatches record).mpr (.inr ⟨_, List.mem_singleton_self _, hrust⟩)
  have hacme :=
    finds_tenant.mp (hrequired record hrecord _ (List.mem_singleton_self _))
  exact absurd hacme (by simp [record])

end

end TermSearch.CommandLine
