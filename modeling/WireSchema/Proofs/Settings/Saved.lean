/-
# Settings that have been written are read

The text that settings are written to has a line for each key, in three sections.  Reading it
makes the tree with these keys, whatever the settings are.
-/

import WireSchema.Proofs.Settings.Reader
import WireSchema.Settings.Load

namespace WireSchema.Settings

/-! ## The text -/

theorem isWord_providerName (provider : Provider) : IsWord provider.name := by
  cases provider <;> decide

theorem isWord_formatName (format : Element.Format) : IsWord format.name := by
  cases format <;> decide

theorem spells_boolText (value : Bool) : Spells (boolText value).toList (.bool value) := by
  cases value <;> exact spells_unquoted (by decide) (by decide) rfl

theorem toList_quotedText (name : String) : (quotedText name).toList = inQuotes name := by
  simp [quotedText, inQuotes]

theorem toList_providersText (providers : List Provider) :
    (providersText providers).toList = arrayText (providers.map Provider.name) := by
  match providers with
  | [] => rfl
  | [provider] => simp [providersText, arrayText, toList_quotedText]
  | first :: second :: providers =>
    simp [providersText, arrayText, toList_quotedText, itemLines, List.flatMap_map]

/-- The lines that settings are written to. -/
def savedLines (settings : Settings) : List Line := [
  .header (.table ["compatibility"]),
  .assignment ⟨["strict"], .bool settings.strict⟩,
  .header (.table ["providers"]),
  .assignment ⟨["order"], .array ((settings.providers.map Provider.name).map .text)⟩,
  .header (.table ["descriptor"]),
  .assignment ⟨["output_format"], .text settings.document.format.name⟩,
  .assignment ⟨["include_root"], .bool settings.document.includeRoot⟩]

theorem hasLines_render (settings : Settings) :
    HasLines settings.render.toList settings.savedLines := by
  have hnames : ∀ name ∈ settings.providers.map Provider.name, IsWord name := by
    simp only [List.mem_map]
    rintro _ ⟨provider, -, rfl⟩
    exact isWord_providerName provider
  have hroot := hasLines_nil.assignment "include_root" (by decide +kernel)
    (spells_boolText settings.document.includeRoot)
  have hformat := hroot.assignment "output_format" (by decide +kernel)
    (spells_inQuotes (isWord_formatName settings.document.format))
  have hdescriptor := hformat.header "descriptor" (by decide +kernel)
  have horder := hdescriptor.empty_line.assignment "order" (by decide +kernel)
    (spells_arrayText hnames)
  have hproviders := horder.header "providers" (by decide +kernel)
  have hstrict := hproviders.empty_line.assignment "strict" (by decide +kernel)
    (spells_boolText settings.strict)
  have hcompatibility := hstrict.header "compatibility" (by decide +kernel)
  unfold render
  simpa [savedLines, toList_quotedText, toList_providersText] using hcompatibility

/-! ## The tree -/

/-- The tree that settings are written as. -/
def savedTree (settings : Settings) : List (String × SettingValue) := [
  ("compatibility", .table [("strict", .bool settings.strict)]),
  ("providers", .table [("order", .array ((settings.providers.map Provider.name).map .text))]),
  ("descriptor", .table [
    ("output_format", .text settings.document.format.name),
    ("include_root", .bool settings.document.includeRoot)])]

theorem treeOf_savedLines (settings : Settings) :
    treeOf (sectionsOf ⟨.none, []⟩ settings.savedLines) = some (.table settings.savedTree) := by
  simp [savedLines, savedTree, sectionsOf, treeOf, Section.addTo, Entries.changeAt,
    Section.openTable, Entries.assignAll, Entries.assign, Entries.get?, Entries.put,
    Entry.finishAll, Entry.finish]

/-- The text that settings are written to is read as the tree of their keys. -/
theorem parse_render (settings : Settings) :
    parse settings.render = some (.table settings.savedTree) := by
  rw [parse_of_hasLines (by unfold render; simp) settings.hasLines_render, treeOf_savedLines]

end WireSchema.Settings
