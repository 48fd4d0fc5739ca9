/-
# Saved settings win over every file below them

Settings that have been written to a file have every key, so loading that file above any others
gives these settings back: nothing of the lower files and none of the defaults comes through.
-/

import WireSchema.Proofs.Settings.Layers
import WireSchema.Proofs.Settings.Saved

namespace WireSchema.Settings

/-! ## Reading single values -/

theorem choice?_providerName (provider : Provider) :
    choice? Provider.standard Provider.name (.text provider.name) = some provider := by
  cases provider <;> decide +kernel

theorem choice?_formatName (format : Element.Format) :
    choice? [.pretty, .compact] Element.Format.name (.text format.name) = some format := by
  cases format <;> decide +kernel

theorem providers?_names (providers : List Provider) :
    providers? (.array ((providers.map Provider.name).map .text)) = some providers := by
  rw [providers?, List.map_map]
  induction providers with
  | nil => rfl
  | cons provider providers ih => simp [choice?_providerName, ih]

/-! ## The settings of the tree -/

open SettingValue

/-- The tree that settings are written as gives them back, whatever it is laid over. -/
theorem ofValue?_overlay_savedTree (settings : Settings) (old : SettingValue) :
    ofValue? (old.overlay settings.savedTree) = some settings := by
  have hsections : ArePlainKeys ["compatibility", "providers", "descriptor"] := by decide +kernel
  have hstrictKeys : ArePlainKeys ["strict"] := by decide +kernel
  have horderKeys : ArePlainKeys ["order"] := by decide +kernel
  have hdocumentKeys : ArePlainKeys ["output_format", "include_root"] := by decide +kernel
  have hsaved : ArePlainKeys (settings.savedTree.map Prod.fst) := hsections
  obtain ⟨compatibility, hcompatibility, hstrict⟩ :=
    hsaved.exists_section (.head _) hstrictKeys (by simp) old
  obtain ⟨providers, hproviders, horder⟩ :=
    hsaved.exists_section (.tail _ (.head _)) horderKeys (by simp) old
  obtain ⟨descriptor, hdescriptor, hdocument⟩ :=
    hsaved.exists_section (.tail _ (.tail _ (.head _))) hdocumentKeys (by simp) old
  have hstrict := hstrict _ _ (.head _) (by simp [IsLeaf])
  have horder := horder _ _ (.head _) (by simp [IsLeaf])
  have hformat := hdocument _ _ (.head _) (by simp [IsLeaf])
  have hroot := hdocument _ _ (.tail _ (.head _)) (by simp [IsLeaf])
  simp [ofValue?, table?, read?, hcompatibility, hproviders, hdescriptor, hstrict, horder, hformat,
    hroot, truth?, providers?_names, choice?_formatName, -List.map_map]

/-! ## The files -/

theorem overlayFiles_append (root : SettingValue) (lower upper : List String) :
    overlayFiles root (lower ++ upper) =
      (overlayFiles root lower).bind fun root => overlayFiles root upper := by
  induction lower generalizing root with
  | nil => rfl
  | cons text lower ih => simp [overlayFiles, ih, Option.bind_assoc]

/-- Files that can be read make a tree. -/
theorem exists_overlayFiles {files : List String} (h : ∀ text ∈ files, (parse text).isSome)
    (root : SettingValue) : ∃ tree, overlayFiles root files = some tree := by
  induction files generalizing root with
  | nil => exact ⟨root, rfl⟩
  | cons text files ih =>
    obtain ⟨tree, htree⟩ := Option.isSome_iff_exists.1 (h text List.mem_cons_self)
    obtain ⟨result, hresult⟩ := ih (fun other hother => h other (List.mem_cons_of_mem _ hother))
      (root.overlay tree.entries)
    exact ⟨result, by simp [overlayFiles, htree, hresult]⟩

/-! ## The environment -/

theorem ofEnvironment_eq_nil {environment : List (String × String)}
    (h : ∀ entry ∈ environment, ¬ variableStart <+: (Text.lowercase entry.1).toList) :
    ofEnvironment environment = [] := by
  rw [ofEnvironment, List.filterMap_eq_nil_iff]
  intro entry hentry
  simp [keyOfVariable?, h entry hentry]

/-! ## Loading -/

/-- Settings that have been saved are loaded as they were, whatever well-formed files lie below
the saved one, if no variable of the environment is a setting. -/
theorem load_saved (settings : Settings) (usual : List String)
    (environment : List (String × String)) (husual : ∀ text ∈ usual, (parse text).isSome)
    (henvironment :
      ∀ entry ∈ environment, ¬ variableStart <+: (Text.lowercase entry.1).toList) :
    load ⟨usual, .text settings.render, environment⟩ = .ok settings := by
  obtain ⟨below, hbelow⟩ := exists_overlayFiles husual .emptyTable
  have hfiles : overlayFiles .emptyTable (usual ++ [settings.render]) =
      some (below.overlay settings.savedTree) := by
    simp [overlayFiles_append, hbelow, overlayFiles, parse_render, SettingValue.entries]
  have hsettings :
      ofValue? ((below.overlay settings.savedTree).overlay (ofEnvironment environment)) =
        some settings := by
    rw [ofEnvironment_eq_nil henvironment, overlay_nil]
    exact ofValue?_overlay_savedTree settings below
  simp [load, Sources.files?, hfiles, hsettings]

/-- Lower files with values of other types, with other cases of the keys and with providers, below
saved settings without any; a variable that is no setting. -/
theorem load_saved_noProviders :
    (∀ text ∈ ["compatibility = 3\n", "[Providers]\nORDER = [\"list\"]\n",
        "providers.order = true\n", "[[descriptor]]\ninclude_root = true\n"],
      (parse text).isSome) ∧
    (∀ entry ∈ [("CONTRACTS_STRICT", "1")],
      ¬ variableStart <+: (Text.lowercase entry.1).toList) ∧
    load ⟨["compatibility = 3\n", "[Providers]\nORDER = [\"list\"]\n",
        "providers.order = true\n", "[[descriptor]]\ninclude_root = true\n"],
      .text (render ⟨true, [], ⟨.compact, false⟩⟩), [("CONTRACTS_STRICT", "1")]⟩ =
        .ok ⟨true, [], ⟨.compact, false⟩⟩ := by
  have husual : ∀ text ∈ ["compatibility = 3\n", "[Providers]\nORDER = [\"list\"]\n",
      "providers.order = true\n", "[[descriptor]]\ninclude_root = true\n"],
      (parse text).isSome := by
    decide +kernel
  have henvironment : ∀ entry ∈ [("CONTRACTS_STRICT", "1")],
      ¬ variableStart <+: (Text.lowercase entry.1).toList := by
    decide +kernel
  exact ⟨husual, henvironment, load_saved ⟨true, [], ⟨.compact, false⟩⟩ _ _ husual henvironment⟩

end WireSchema.Settings
