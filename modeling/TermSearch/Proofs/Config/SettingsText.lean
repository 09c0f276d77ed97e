import TermSearch.Config.Printer
import TermSearch.Proofs.Toml.Statements

namespace TermSearch

open Toml

/-! A configuration that is written as settings is read back. -/

namespace Config

variable (config : Config)

def statements : List Statement :=
  [.table ["query"],
    .assignment ["default_fields"] (.array (config.defaultFields.map .string)),
    .table ["page"], .assignment ["from"] (.integer config.page.offset.toNat),
    .assignment ["size"] (.integer config.page.size.toNat)]

theorem toList_settingsText :
    config.settingsText.toList =
      tableLine "query" ++
        (assignmentLine "default_fields"
          (quotedArray config.defaultFields).toList ++
        '\n' ::
        (tableLine "page" ++
        (assignmentLine "from" (Nat.toDigits 10 config.page.offset.toNat) ++
        (assignmentLine "size" (Nat.toDigits 10 config.page.size.toNat) ++
        [])))) := by
  have hdigits (n : Nat) : (toString n).toList = Nat.toDigits 10 n := by simp
  have hfields : "[query]\ndefault_fields = ".toList =
      tableLine "query" ++ ("default_fields".toList ++ [' ', '=', ' ']) := rfl
  have hoffset : "\n\n[page]\nfrom = ".toList =
      '\n' :: '\n' ::
        (tableLine "page" ++ ("from".toList ++ [' ', '=', ' '])) := rfl
  have hsize :
      "\nsize = ".toList = '\n' :: ("size".toList ++ [' ', '=', ' ']) := rfl
  have hend : "\n".toList = ['\n'] := rfl
  unfold settingsText
  simp only [String.toList_append, hdigits, hfields, hoffset, hsize, hend,
    assignmentLine, List.cons_append, List.append_assoc, List.nil_append]

theorem statements_settingsText :
    Toml.statements config.settingsText.toList = some config.statements := by
  have hquery : IsBare "query" := ⟨by simp, by simp [isBareKeyChar]⟩
  have hdefaultFields : IsBare "default_fields" :=
    ⟨by simp, by simp [isBareKeyChar]⟩
  have hpage : IsBare "page" := ⟨by simp, by simp [isBareKeyChar]⟩
  have hfrom : IsBare "from" := ⟨by simp, by simp [isBareKeyChar]⟩
  have hsize : IsBare "size" := ⟨by simp, by simp [isBareKeyChar]⟩
  rw [toList_settingsText, statements_table hquery, statements_assignment
    hdefaultFields (startsValue_quotedArray _) (value_quotedArray _ _ _),
    statements_newline_table hpage, statements_assignment hfrom
    (startsValue_toDigits _) (value_toDigits _ (UInt64.toNat_lt _) _),
    statements_assignment hsize (startsValue_toDigits _)
    (value_toDigits _ (UInt64.toNat_lt _) _), statements_nil]
  rfl

theorem add?_statements :
    config.statements.foldlM Draft.add? ⟨[], []⟩ =
      some ⟨["page"],
        [("page",
          .table .header [("from", .value (.integer config.page.offset.toNat)),
            ("size", .value (.integer config.page.size.toNat))]),
          ("query",
            .table .header [("default_fields",
              .value (.array (config.defaultFields.map .string)))])]⟩ := by
  simp only [statements, List.foldlM_cons, List.foldlM_nil, Draft.add?,
    Entries.within, Entries.assign, Entries.declareTable, Entries.alter,
    List.getLast?_singleton, List.dropLast_singleton, Option.map_some,
    Option.isSome_none, Option.pure_def, Option.bind_eq_bind,
    Option.bind_some, Option.bind_fun_some, Bool.false_eq_true, ↓reduceIte,
    String.reduceEq, String.reduceLT]

theorem read?_settingsText :
    Toml.read? config.settingsText =
      some [("page",
        .table [("from", .integer config.page.offset.toNat),
          ("size", .integer config.page.size.toNat)]),
        ("query",
          .table [("default_fields",
            .array (config.defaultFields.map .string))])] := by
  have hmark :
      withoutMark config.settingsText.toList = config.settingsText.toList := by
    rw [toList_settingsText]
    rfl
  rw [read?, hmark, statements_settingsText]
  change (config.statements.foldlM Draft.add? ⟨[], []⟩).bind _ = _
  rw [add?_statements]
  rfl

end Config

/-! What is read of the values. -/

namespace Toml.Value

theorem toNatural_natCast (value : UInt64) :
    (integer value.toNat).toNatural = .ok value := by
  have h : (0 : Int) ≤ value.toNat := Int.natCast_nonneg _
  rw [toNatural, if_pos h, Int.toNat_natCast, Nat.toUInt64_eq,
    UInt64.ofNat_toNat]

theorem toOneOrMany_strings (texts : List String) :
    (array (texts.map string)).toOneOrMany = .ok texts := by
  have htexts : (array (texts.map string)).toTexts = .ok texts := by
    change (texts.map string).mapM toText = .ok texts
    have hpure : toText ∘ string = fun text => pure text := rfl
    rw [List.mapM_map, hpure, List.mapM_pure, List.map_id']
    rfl
  rw [toOneOrMany, htexts]
  rfl

end Toml.Value

theorem QuerySettings.decode_eq_ok {fields : Toml.Value} {texts : List String}
    (h : fields.toOneOrMany = .ok texts) :
    decode (.table [("default_fields", fields)]) = .ok ⟨some texts⟩ := by
  change Except.bind (Except.bind fields.toOneOrMany _) _ = _
  rw [h]
  rfl

theorem PageSettings.decode_eq_ok {first second : Toml.Value}
    {offset size : UInt64} (hoffset : first.toNatural = .ok offset)
    (hsize : second.toNatural = .ok size) :
    decode (.table [("from", first), ("size", second)]) =
      .ok ⟨some offset, some size⟩ := by
  change Except.bind (Except.bind first.toNatural _) _ = _
  rw [hoffset]
  change Except.bind (Except.bind second.toNatural _) _ = _
  rw [hsize]
  rfl

theorem Settings.add_eq_ok {first second : Toml.Value} {query : QuerySettings}
    {page : PageSettings} (hpage : PageSettings.decode first = .ok page)
    (hquery : QuerySettings.decode second = .ok query) :
    [("page", first), ("query", second)].foldlM add empty =
      .ok ⟨none, some query, some page⟩ := by
  change Except.bind (Except.bind (PageSettings.decode first) _) _ = _
  rw [hpage]
  change Except.bind (Except.bind (QuerySettings.decode second) _) _ = _
  rw [hquery]
  rfl

/-- Every configuration can be written as a settings file. The file makes all
settings that it can make but that of a root, and alone it gives the same
configuration. -/
theorem Config.read_settingsText (config : Config) :
    ∃ settings, Settings.read config.settingsText = .ok settings ∧
      settings.root = none ∧
      settings.query = some ⟨some config.defaultFields⟩ ∧
      settings.page = some ⟨some config.page.offset, some config.page.size⟩ ∧
      ∀ path : Path,
        (Config.merge [⟨path, settings⟩]).defaultFields = config.defaultFields ∧
          (Config.merge [⟨path, settings⟩]).page = config.page := by
  refine ⟨⟨none, some ⟨some config.defaultFields⟩,
    some ⟨some config.page.offset, some config.page.size⟩⟩, ?_, rfl, rfl, rfl,
    fun _ => ⟨rfl, rfl⟩⟩
  have hquery := QuerySettings.decode_eq_ok
    (Toml.Value.toOneOrMany_strings config.defaultFields)
  have hpage :=
    PageSettings.decode_eq_ok (Toml.Value.toNatural_natCast config.page.offset)
      (Toml.Value.toNatural_natCast config.page.size)
  rw [Settings.read, read?_settingsText]
  exact congrArg (Except.mapError SettingsError.mismatch)
    (Settings.add_eq_ok hpage hquery)

end TermSearch
