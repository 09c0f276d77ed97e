import TermSearch.CommandLine.Execute
import TermSearch.Proofs.Query.Addition
import TermSearch.Proofs.Query.Violation

namespace TermSearch

/-! What a request for a translation comes to: a document of the query with all
further queries added at its root, the required ones first. -/

namespace CommandLine

namespace Transcript

theorem result_bind_eq_ok {first : Transcript α} {next : α → Transcript β}
    {value : β} :
    (first >>= next).result = .ok value ↔
      ∃ middle, first.result = .ok middle ∧
        (next middle).result = .ok value := by
  rw [result_bind]
  cases first.result <;> simp [Except.bind]

theorem output_bind_of_ok {first : Transcript α} {next : α → Transcript β}
    {middle : α} (h : first.result = .ok middle) :
    (first >>= next).output = first.output ++ (next middle).output := by
  rw [output_bind, h]

theorem written_bind_of_ok {first : Transcript α} {next : α → Transcript β}
    {middle : α} (h : first.result = .ok middle) :
    (first >>= next).written = first.written ++ (next middle).written := by
  rw [written_bind, h]

/-- A step that neither prints nor writes, whether it succeeds or not. -/
structure IsSilent (transcript : Transcript α) : Prop where
  output_eq : transcript.output = ""
  written_eq : transcript.written = []

theorem isSilent_ofResult (result : Except Failure α) :
    (ofResult result).IsSilent :=
  ⟨rfl, rfl⟩

theorem isSilent_pure (value : α) : (pure value : Transcript α).IsSilent :=
  ⟨rfl, rfl⟩

theorem isSilent_record (level : Terminal.Level) (text : String) :
    (record level text).IsSilent :=
  ⟨rfl, rfl⟩

theorem IsSilent.bind {first : Transcript α} {next : α → Transcript β}
    (h : first.IsSilent) (hnext : ∀ value, (next value).IsSilent) :
    (first >>= next).IsSilent := by
  constructor
  · rw [output_bind, h.output_eq]
    cases first.result with
    | error failure => rfl
    | ok value => simpa using (hnext value).output_eq
  · rw [written_bind, h.written_eq]
    cases first.result with
    | error failure => rfl
    | ok value => simpa using (hnext value).written_eq

theorem IsSilent.foldlM {step : β → α → Transcript β}
    (h : ∀ state item, (step state item).IsSilent)
    (items : List α) (state : β) : (items.foldlM step state).IsSilent := by
  induction items generalizing state with
  | nil => exact isSilent_pure state
  | cons item items ih =>
      rw [List.foldlM_cons]
      exact (h state item).bind ih

/-- A step that prints and writes at most what comes of it. -/
def IsSilentOnFailure (transcript : Transcript α) : Prop :=
  ∀ failure, transcript.result = .error failure → transcript.IsSilent

theorem IsSilent.bind_silentOnFailure {first : Transcript α}
    {next : α → Transcript β} (h : first.IsSilent)
    (hnext : ∀ value, (next value).IsSilentOnFailure) :
    (first >>= next).IsSilentOnFailure := by
  intro failure hfailure
  rw [result_bind] at hfailure
  constructor
  · rw [output_bind, h.output_eq]
    cases hfirst : first.result with
    | error failure => rfl
    | ok value =>
        rw [hfirst] at hfailure
        simpa using (hnext value failure hfailure).output_eq
  · rw [written_bind, h.written_eq]
    cases hfirst : first.result with
    | error failure => rfl
    | ok value =>
        rw [hfirst] at hfailure
        simpa using (hnext value failure hfailure).written_eq

theorem IsSilentOnFailure.bind_of_ok {first : Transcript α}
    {next : α → Transcript β} (h : first.IsSilentOnFailure)
    (hnext : ∀ value, ∃ last, (next value).result = .ok last) :
    (first >>= next).IsSilentOnFailure := by
  intro failure hfailure
  rw [result_bind] at hfailure
  cases hfirst : first.result with
  | error earlier =>
      constructor
      · rw [output_bind, hfirst, (h earlier hfirst).output_eq]
        rfl
      · rw [written_bind, hfirst, (h earlier hfirst).written_eq]
        rfl
  | ok value =>
      obtain ⟨last, hlast⟩ := hnext value
      rw [hfirst] at hfailure
      cases hlast.symm.trans hfailure

theorem isSilent_config (surroundings : Surroundings) :
    surroundings.config.IsSilent :=
  ⟨rfl, rfl⟩

theorem isSilent_request (surroundings : Surroundings) (config : Config)
    (request : QueryRequest) :
    (Transcript.request surroundings config request).IsSilent :=
  (isSilent_ofResult _).bind fun _ =>
    IsSilent.bind ⟨rfl, rfl⟩ fun _ => isSilent_pure _

theorem isSilent_document (query : SearchQuery) :
    (Transcript.document query).IsSilent :=
  isSilent_ofResult _

theorem isSilent_query (translator : Translator) (text : String) :
    (Transcript.query translator text).IsSilent := by
  refine (isSilent_record _ _).bind fun _ => IsSilent.bind ?_ fun tree => ?_
  · exact (isSilent_ofResult _).bind fun _ =>
      (isSilent_record _ _).bind fun _ =>
      isSilent_pure _
  · exact (isSilent_ofResult _).bind fun _ =>
      (isSilent_record _ _).bind fun _ =>
      (isSilent_record _ _).bind fun _ => isSilent_pure _

theorem request_eq_ok_iff {surroundings : Surroundings} {config : Config}
    {request : QueryRequest} {found : String × Translator} :
    (Transcript.request surroundings config request).result = .ok found ↔
      ∃ text, surroundings.queryText request.words = .ok text ∧
        found = (text, request.translator config) := by
  unfold Transcript.request
  simp only [result_bind_eq_ok, result_ofResult, result_pure]
  constructor
  · rintro ⟨text, htext, -, -, hfound⟩
    exact ⟨text, htext, (Except.ok.inj hfound).symm⟩
  · rintro ⟨text, htext, rfl⟩
    exact ⟨text, htext, (), rfl, rfl⟩

theorem query_eq_ok_iff {translator : Translator} {text : String}
    {found : SearchQuery} :
    (Transcript.query translator text).result = .ok found ↔
      translator.query text = .ok found := by
  rw [result_query, mapError_eq_ok_iff]

theorem document_eq_ok_iff {query : SearchQuery} {document : QueryDocument} :
    (Transcript.document query).result = .ok document ↔
      query.eval = .ok document :=
  mapError_eq_ok_iff

section Outcome

variable {transcript : Transcript Unit} {verbosity : Nat} {tree : FileTree}

theorem outcome_of_ok (h : transcript.result = .ok ()) :
    transcript.outcome verbosity tree =
      ⟨.success, transcript.output,
        Terminal.LogEntry.showAll verbosity transcript.log,
        tree.putAll transcript.written⟩ := by
  rw [outcome, h]

theorem outcome_of_error {failure : Failure}
    (h : transcript.result = .error failure) :
    transcript.outcome verbosity tree =
      ⟨.failure, transcript.output,
        Terminal.LogEntry.showAll verbosity transcript.log ++ failure.report,
        tree.putAll transcript.written⟩ := by
  rw [outcome, h]

theorem status_outcome :
    (transcript.outcome verbosity tree).status = .success ↔
      transcript.result = .ok () := by
  cases h : transcript.result with
  | error failure => simp [outcome_of_error h]
  | ok => simp [outcome_of_ok h]

theorem output_outcome :
    (transcript.outcome verbosity tree).output = transcript.output := by
  cases h : transcript.result with
  | error failure => rw [outcome_of_error h]
  | ok => rw [outcome_of_ok h]

end Outcome

end Transcript

open Transcript

variable {translator : Translator} {connective : Connective}
  {query built : SearchQuery}

theorem isSilent_addQuery (translator : Translator) (connective : Connective)
    (query : SearchQuery) (text : String) :
    (addQuery translator connective query text).IsSilent := by
  cases connective <;> exact (isSilent_record _ _).bind fun _ =>
    (isSilent_query translator text).bind fun _ =>
      isSilent_pure _

theorem addQuery_eq_ok_iff {text : String} :
    (addQuery translator connective query text).result = .ok built ↔
      ∃ other, translator.query text = .ok other ∧
        built = query.add ⟨connective, other.root⟩ := by
  have hstep : (addQuery translator connective query text).result =
      (Transcript.query translator text >>= fun other =>
        pure (query.add ⟨connective, other.root⟩)).result := by
    cases connective <;> rfl
  simp only [hstep, result_bind_eq_ok, query_eq_ok_iff, result_pure,
    Except.ok.injEq, @eq_comm _ built]

theorem addQueries_eq_ok_iff {texts : List String} :
    (texts.foldlM (addQuery translator connective) query).result = .ok built ↔
      ∃ others,
        List.Forall₂ (fun text other => translator.query text = .ok other) texts
            others ∧
          built =
            query.addAll
              ((others.map SearchQuery.root).map (Addition.mk connective)) := by
  induction texts generalizing query with
  | nil =>
      rw [List.foldlM_nil, result_pure, Except.ok.injEq]
      constructor
      · rintro rfl
        exact ⟨[], .nil, rfl⟩
      · rintro ⟨others, hothers, rfl⟩
        cases hothers
        rfl
  | cons text texts ih =>
      rw [List.foldlM_cons, result_bind_eq_ok]
      constructor
      · rintro ⟨middle, hmiddle, hbuilt⟩
        obtain ⟨other, hother, rfl⟩ := addQuery_eq_ok_iff.mp hmiddle
        obtain ⟨others, hothers, rfl⟩ := ih.mp hbuilt
        exact ⟨other :: others, .cons hother hothers, rfl⟩
      · rintro ⟨others, hothers, rfl⟩
        cases hothers with
        | cons hother hothers =>
            exact ⟨_, addQuery_eq_ok_iff.mpr ⟨_, hother, rfl⟩,
              ih.mpr ⟨_, hothers, rfl⟩⟩

/-- The main query and those of the options are all read, and joined in the
order of the options: first all required ones, then all alternatives. -/
theorem TranslateRequest.build_eq_ok_iff {request : TranslateRequest}
    {text : String} :
    (request.build translator text).result = .ok built ↔
      ∃ query musts shoulds, translator.query text = .ok query ∧
        List.Forall₂ (fun text other => translator.query text = .ok other)
          request.must musts ∧
        List.Forall₂ (fun text other => translator.query text = .ok other)
          request.should shoulds ∧
        built =
          (query.addAll
            ((musts.map SearchQuery.root).map (Addition.mk .all))).addAll
            ((shoulds.map SearchQuery.root).map (Addition.mk .any)) := by
  unfold TranslateRequest.build
  simp only [result_bind_eq_ok, query_eq_ok_iff, addQueries_eq_ok_iff]
  constructor
  · rintro ⟨query, hquery, -, ⟨musts, hmusts, rfl⟩, shoulds, hshoulds, rfl⟩
    exact ⟨query, musts, shoulds, hquery, hmusts, hshoulds, rfl⟩
  · rintro ⟨query, musts, shoulds, hquery, hmusts, hshoulds, rfl⟩
    exact ⟨query, hquery, _, ⟨musts, hmusts, rfl⟩, shoulds, hshoulds, rfl⟩

theorem TranslateRequest.isSilent_build (request : TranslateRequest)
    (translator : Translator) (text : String) :
    (request.build translator text).IsSilent :=
  (isSilent_query translator text).bind fun _ =>
    (IsSilent.foldlM (isSilent_addQuery translator .all) _ _).bind fun _ =>
      IsSilent.foldlM (isSilent_addQuery translator .any) _ _

def TranslateRequest.rendered (request : TranslateRequest)
    (document : QueryDocument) : String :=
  if request.compact then document.compact else document.pretty

theorem TranslateRequest.run_eq_ok_iff {request : TranslateRequest}
    {surroundings : Surroundings} :
    (request.run surroundings).result = .ok () ↔
      ∃ config text built document, surroundings.config.result = .ok config ∧
        surroundings.queryText request.query.words = .ok text ∧
        (request.build (request.query.translator config) text).result =
          .ok built ∧
        built.eval = .ok document := by
  unfold run
  simp only [result_bind_eq_ok, request_eq_ok_iff, document_eq_ok_iff]
  constructor
  · rintro ⟨config, hconfig, found, ⟨text, htext, rfl⟩, built, hbuilt,
      document, heval, -⟩
    exact ⟨config, text, built, document, hconfig, htext, hbuilt, heval⟩
  · rintro ⟨config, text, built, document, hconfig, htext, hbuilt, heval⟩
    exact ⟨config, hconfig, _, ⟨text, htext, rfl⟩, built, hbuilt,
      document, heval, rfl⟩

theorem TranslateRequest.output_run {request : TranslateRequest}
    {surroundings : Surroundings} {config : Config} {text : String}
    {document : QueryDocument}
    (hconfig : surroundings.config.result = .ok config)
    (htext : surroundings.queryText request.query.words = .ok text)
    (hbuilt : (request.build (request.query.translator config) text).result =
      .ok built)
    (heval : built.eval = .ok document) :
    (request.run surroundings).output = request.rendered document ++ "\n" := by
  unfold run
  rw [output_bind_of_ok hconfig,
    output_bind_of_ok (request_eq_ok_iff.mpr ⟨text, htext, rfl⟩),
    output_bind_of_ok hbuilt, output_bind_of_ok (document_eq_ok_iff.mpr heval),
    (isSilent_config surroundings).output_eq,
    (isSilent_request _ _ _).output_eq, (request.isSilent_build _ _).output_eq,
    (isSilent_document _).output_eq, output_print]
  simp only [String.empty_append, rendered]

variable {arguments : List String} {surroundings : Surroundings}
  {verbosity : Nat} {request : TranslateRequest}

theorem execute_eq_outcome
    (h : Invocation.ofArguments? arguments =
      some ⟨verbosity, .translate request⟩) :
    execute arguments surroundings =
      (request.run surroundings).outcome verbosity surroundings.tree := by
  rw [execute, h]
  rfl

theorem status_execute
    (h : Invocation.ofArguments? arguments =
      some ⟨verbosity, .translate request⟩) :
    (execute arguments surroundings).status = .success ↔
      (request.run surroundings).result = .ok () := by
  rw [execute_eq_outcome h, status_outcome]

theorem output_execute
    (h : Invocation.ofArguments? arguments =
      some ⟨verbosity, .translate request⟩) :
    (execute arguments surroundings).output =
      (request.run surroundings).output := by
  rw [execute_eq_outcome h, output_outcome]

end CommandLine

/-! What the printed document matches, in terms of the translations of the
single queries. -/

/-- The translation of the text, on its own, matches the record. -/
def Translator.Finds (translator : Translator) (text : String)
    (record : Record) : Prop :=
  ∃ document, translator.translate text = .ok document ∧
    document.query.Matches record

theorem Translator.finds_iff_of_query {translator : Translator}
    {text : String} {query : SearchQuery} {record : Record}
    (h : translator.query text = .ok query) :
    translator.Finds text record ↔ query.root.Matches record := by
  obtain ⟨document, htranslate, hmatches⟩ := translate_of_query h
  simp only [Finds, htranslate, Except.ok.injEq, exists_eq_left', hmatches]

theorem Translator.finds_iff_of_parse {translator : Translator}
    {text : String} {tree : SyntaxTree} {record : Record}
    (h : SyntaxTree.parse text = .ok tree)
    (hfields : translator.defaultFields ≠ [] ∨
      ∀ group ∈ tree.groups, group.fields ≠ none) :
    translator.Finds text record ↔
      ∀ group ∈ tree.groups, group.Matches translator.defaultFields record := by
  obtain ⟨query, hquery, hmatches⟩ := query_of_parse h hfields
  rw [finds_iff_of_query hquery, hmatches]

namespace CommandLine

variable {translator : Translator} {texts : List String}
  {others : List SearchQuery}

theorem forall_roots_of_queries {holds : QueryNode → Prop}
    (h : List.Forall₂ (fun text other => translator.query text = .ok other)
      texts others)
    (hholds : ∀ {text query}, translator.query text = .ok query →
      holds query.root) :
    ∀ node ∈ others.map SearchQuery.root, holds node := by
  induction h with
  | nil => exact List.forall_mem_nil _
  | cons hquery _ ih => exact List.forall_mem_cons.mpr ⟨hholds hquery, ih⟩

theorem joins_queries {connective : Connective} {record : Record}
    (h : List.Forall₂ (fun text other => translator.query text = .ok other)
      texts others) :
    connective.Joins (fun node => QueryNode.Matches record node)
        (others.map SearchQuery.root) ↔
      connective.Joins (fun text => translator.Finds text record) texts := by
  rw [Connective.joins_map]
  exact (Connective.joins_forall₂
    (h.imp fun _ _ hquery => Translator.finds_iff_of_query hquery)).symm

theorem exists_queries
    (h : ∀ text ∈ texts, ∃ query, translator.query text = .ok query) :
    ∃ others,
      List.Forall₂ (fun text other => translator.query text = .ok other) texts
        others := by
  induction texts with
  | nil => exact ⟨[], .nil⟩
  | cons text texts ih =>
      obtain ⟨⟨other, hother⟩, htexts⟩ := List.forall_mem_cons.mp h
      obtain ⟨others, hothers⟩ := ih htexts
      exact ⟨other :: others, .cons hother hothers⟩

/-- All required queries guard the main one, and none of them guards an
alternative. -/
theorem TranslateRequest.matches_of_build {request : TranslateRequest}
    {text : String} {built : SearchQuery}
    (h : (request.build translator text).result = .ok built) :
    built.root.IsSet ∧
      ∀ record, built.root.Matches record ↔
        (translator.Finds text record ∧
            ∀ other ∈ request.must, translator.Finds other record) ∨
          ∃ other ∈ request.should, translator.Finds other record := by
  obtain ⟨query, musts, shoulds, hquery, hmusts, hshoulds, rfl⟩ :=
    build_eq_ok_iff.mp h
  constructor
  · rw [SearchQuery.isSet_addAll_map_iff, SearchQuery.isSet_addAll_map_iff]
    exact ⟨⟨Translator.isSet_of_query hquery,
      forall_roots_of_queries hmusts Translator.isSet_of_query⟩,
      forall_roots_of_queries hshoulds Translator.isSet_of_query⟩
  · intro record
    rw [SearchQuery.matches_addAll_map,
      SearchQuery.matches_addAll_map, joins_queries hmusts,
      joins_queries hshoulds, Translator.finds_iff_of_query hquery]
    rfl

theorem TranslateRequest.run_of_queries {request : TranslateRequest}
    {surroundings : Surroundings} {config : Config} {text : String}
    (hconfig : surroundings.config.result = .ok config)
    (htext : surroundings.queryText request.query.words = .ok text)
    (hqueries : ∀ other ∈ text :: (request.must ++ request.should),
      ∃ query, (request.query.translator config).query other = .ok query) :
    (request.run surroundings).result = .ok () := by
  simp only [List.forall_mem_cons, List.forall_mem_append] at hqueries
  obtain ⟨⟨query, hquery⟩, hmust, hshould⟩ := hqueries
  obtain ⟨musts, hmusts⟩ := exists_queries hmust
  obtain ⟨shoulds, hshoulds⟩ := exists_queries hshould
  have hbuilt :=
    build_eq_ok_iff.mpr ⟨query, musts, shoulds, hquery, hmusts, hshoulds, rfl⟩
  obtain ⟨document, heval, -⟩ :=
    SearchQuery.eval_of_isSet_root (matches_of_build hbuilt).1
  exact run_eq_ok_iff.mpr
    ⟨config, text, _, document, hconfig, htext, hbuilt, heval⟩

theorem document_of_success {arguments : List String}
    {surroundings : Surroundings} {verbosity : Nat}
    {request : TranslateRequest}
    (hinvocation : Invocation.ofArguments? arguments =
      some ⟨verbosity, .translate request⟩)
    (hsuccess : (execute arguments surroundings).status = .success) :
    ∃ config text document, surroundings.config.result = .ok config ∧
      surroundings.queryText request.query.words = .ok text ∧
      (execute arguments surroundings).output =
        request.rendered document ++ "\n" ∧
      ∀ record : Record, document.query.Matches record ↔
        ((request.query.translator config).Finds text record ∧
            ∀ other ∈ request.must,
              (request.query.translator config).Finds other record) ∨
          ∃ other ∈ request.should,
            (request.query.translator config).Finds other record := by
  have hrun := (status_execute hinvocation).mp hsuccess
  obtain ⟨config, text, built, document, hconfig, htext, hbuilt, heval⟩ :=
    TranslateRequest.run_eq_ok_iff.mp hrun
  obtain ⟨hset, hmatches⟩ := TranslateRequest.matches_of_build hbuilt
  obtain ⟨other, hother, -, hdocument⟩ := SearchQuery.eval_of_isSet_root hset
  cases heval.symm.trans hother
  refine ⟨config, text, document, hconfig, htext, ?_, ?_⟩
  · rw [output_execute hinvocation,
      TranslateRequest.output_run hconfig htext hbuilt heval]
  · intro record
    rw [hdocument, hmatches]

end CommandLine

end TermSearch
