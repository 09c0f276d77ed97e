import TermSearch.CommandLine.Invocation

namespace TermSearch

/-! Where a setting comes from. Merging lets the files overwrite each other, one
section after another; what is left of that is for every setting the word of the
first file that has one, and an option of the command line comes before all
files. -/

open CommandLine

/-- What files and options can set, each independently of the others. -/
inductive Setting where
  | defaultFields
  | offset
  | size
  deriving DecidableEq, Repr

namespace Setting

abbrev Value : Setting → Type
  | .defaultFields => List String
  | .offset | .size => UInt64

/-- What a file says, if it has the section and in it the key. -/
def inFile : (setting : Setting) → Settings → Option setting.Value
  | .defaultFields, settings => settings.query.bind QuerySettings.defaultFields
  | .offset, settings => settings.page.bind PageSettings.offset
  | .size, settings => settings.page.bind PageSettings.size

def inOptions : (setting : Setting) → QueryRequest → Option setting.Value
  | .defaultFields, request =>
      if request.fields = [] then none else some request.fields
  | .offset, request => request.offset
  | .size, request => request.size

def builtIn : (setting : Setting) → setting.Value
  | .defaultFields => ["title", "body"]
  | .offset => 0
  | .size => 50

def ofConfig : (setting : Setting) → Config → setting.Value
  | .defaultFields, config => config.defaultFields
  | .offset, config => config.page.offset
  | .size, config => config.page.size

def ofTranslator : (setting : Setting) → Translator → setting.Value
  | .defaultFields, translator => translator.defaultFields
  | .offset, translator => translator.page.offset
  | .size, translator => translator.page.size

def first? (setting : Setting) (files : List SettingsFile) :
    Option setting.Value :=
  files.findSome? fun file => setting.inFile file.settings

variable (setting : Setting)

@[simp] theorem first?_nil : setting.first? [] = none := rfl

@[simp] theorem first?_cons (file : SettingsFile) (files : List SettingsFile) :
    setting.first? (file :: files) =
      (setting.inFile file.settings).or (setting.first? files) := by
  rw [first?, List.findSome?_cons]
  cases setting.inFile file.settings <;> rfl

theorem first?_append (above below : List SettingsFile) :
    setting.first? (above ++ below) =
      (setting.first? above).or (setting.first? below) :=
  List.findSome?_append

/-! Merging a file changes the settings that it makes, and no others. -/

theorem ofConfig_merge_nil :
    setting.ofConfig (Config.merge []) = setting.builtIn := by
  cases setting <;> rfl

theorem ofConfig_merge_cons (file : SettingsFile) (files : List SettingsFile) :
    setting.ofConfig (Config.merge (file :: files)) =
      (setting.inFile file.settings).getD
        (setting.ofConfig (Config.merge files)) := by
  obtain ⟨path, root, query, page⟩ := file
  cases setting with
  | defaultFields => cases query <;> rfl
  | offset => cases page <;> rfl
  | size => cases page <;> rfl

theorem ofConfig_merge (files : List SettingsFile) :
    setting.ofConfig (Config.merge files) =
      (setting.first? files).getD setting.builtIn := by
  induction files with
  | nil => rw [ofConfig_merge_nil, first?_nil, Option.getD_none]
  | cons file files ih =>
      rw [ofConfig_merge_cons, ih, first?_cons]
      cases setting.inFile file.settings <;> rfl

/-- Below a file that makes the setting any other can be left out. -/
theorem ofConfig_merge_middle {above : List SettingsFile}
    (h : ∃ other ∈ above, setting.inFile other.settings ≠ none)
    (file : SettingsFile) (below : List SettingsFile) :
    setting.ofConfig (Config.merge (above ++ file :: below)) =
      setting.ofConfig (Config.merge (above ++ below)) := by
  have hfirst : setting.first? above ≠ none := by
    intro hnone
    obtain ⟨other, hother, hmakes⟩ := h
    exact hmakes (List.findSome?_eq_none_iff.mp hnone other hother)
  obtain ⟨value, hvalue⟩ := Option.ne_none_iff_exists'.mp hfirst
  simp only [ofConfig_merge, first?_append, hvalue, Option.some_or]

theorem ofTranslator_translator (request : QueryRequest) (config : Config) :
    setting.ofTranslator (request.translator config) =
      (setting.inOptions request).getD (setting.ofConfig config) := by
  obtain ⟨words, fields, offset, size⟩ := request
  cases setting with
  | defaultFields => cases fields <;> rfl
  | offset => rfl
  | size => rfl

/-- An option settles a setting, and otherwise the first file that makes it. So
a file that does not make it can stand anywhere, and what stands below one that
makes it does not matter. The sources are the files in their order. -/
theorem ofTranslator_merge (request : QueryRequest)
    (files : List SettingsFile) :
    setting.ofTranslator (request.translator (Config.merge files)) =
        (setting.inOptions request).getD
          ((setting.first? files).getD setting.builtIn) ∧
      (∀ file above below, setting.inFile file.settings = none →
        setting.ofTranslator
            (request.translator (Config.merge (above ++ file :: below))) =
          setting.ofTranslator
            (request.translator (Config.merge (above ++ below)))) ∧
      (∀ file above below other, setting.inFile file.settings ≠ none →
        setting.ofTranslator
            (request.translator (Config.merge (above ++ file :: below))) =
          setting.ofTranslator
            (request.translator (Config.merge (above ++ file :: other)))) ∧
      (Config.merge files).sources = files.map SettingsFile.path := by
  have hresolved (files : List SettingsFile) :
      setting.ofTranslator (request.translator (Config.merge files)) =
        (setting.inOptions request).getD
          ((setting.first? files).getD setting.builtIn) := by
    rw [ofTranslator_translator, ofConfig_merge]
  refine ⟨hresolved files, ?_, ?_, rfl⟩
  · intro file above below hnone
    simp only [hresolved, first?_append, first?_cons, hnone, Option.none_or]
  · intro file above below other hsome
    obtain ⟨value, hvalue⟩ := Option.ne_none_iff_exists'.mp hsome
    simp only [hresolved, first?_append, first?_cons, hvalue, Option.some_or]

/-- The nearest file has a section without a key, the next one has no fields to
search, and an option takes the place of a size. -/
theorem ofTranslator_merge_partial :
    let nearest : SettingsFile :=
      ⟨⟨"/", ["a", "b", ".esq.toml"]⟩, ⟨none, some ⟨none⟩, none⟩⟩
    let middle : SettingsFile :=
      ⟨⟨"/", ["a", ".esq.toml"]⟩, ⟨none, some ⟨some []⟩, some ⟨some 5, none⟩⟩⟩
    let last : SettingsFile :=
      ⟨⟨"/", [".esq.toml"]⟩, ⟨none, some ⟨some ["x"]⟩, some ⟨some 9, some 7⟩⟩⟩
    let request : QueryRequest := ⟨["rust"], [], none, some 3⟩
    let translator (files : List SettingsFile) :=
      request.translator (Config.merge files)
    translator [nearest, middle, last] = ⟨[], ⟨5, 3⟩⟩ ∧
      defaultFields.inFile nearest.settings = none ∧
      (translator [nearest, middle, last]).defaultFields =
        (translator [middle, last]).defaultFields ∧
      offset.inFile middle.settings ≠ none ∧
      (translator [nearest, middle, last]).page.offset =
        (translator [nearest, middle]).page.offset := by
  intro nearest middle last request translator
  have hfields :=
    defaultFields.ofTranslator_merge request [nearest, middle, last]
  have hoffset := offset.ofTranslator_merge request [nearest, middle, last]
  have hnone : defaultFields.inFile nearest.settings = none := rfl
  have hsome : offset.inFile middle.settings ≠ none := by decide
  refine ⟨rfl, hnone, ?_, hsome, ?_⟩
  · exact hfields.2.1 nearest [] [middle, last] hnone
  · exact hoffset.2.2.1 middle [nearest] [last] [] hsome

end Setting

end TermSearch
