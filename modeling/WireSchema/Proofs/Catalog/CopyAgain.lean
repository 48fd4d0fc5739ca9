/-
# Copying the same graph again

A graph that is copied again into the same catalog is found there, with nothing added, if
no two nodes that were new to the catalog describe the same graph.  Where two do, the second
time finds the first of them, which need not be the one that was answered.  From then on
the answer stays the same.
-/

import WireSchema.Proofs.Catalog.Fingerprint
import WireSchema.Proofs.Store.CopyAgain

namespace WireSchema.Catalog

variable {source target copied : Catalog} {handle copy : Handle}

/-- Copying again gives the copy and changes nothing exactly if the copy finds itself, which
it does if the nodes that go on for ever and were new to the catalog describe different
graphs.  Nothing is added for a node that is referred to by id, and nothing for any node from
the second time on. -/
theorem copy_again (hsource : Reachable source) (htarget : Reachable target)
    (hcopy : onStore (source.store.copyFrom handle) target = .ok copy copied) :
    (onStore (source.store.copyFrom handle) copied = .ok copy copied ↔
      copied.store.FindsItself copy) ∧
    (source.store.NewOnce handle target.store →
      onStore (source.store.copyFrom handle) copied = .ok copy copied) ∧
    (source.store.Referred handle →
      ∃ again, onStore (source.store.copyFrom handle) copied = .ok again copied) ∧
    ∃ again settled, onStore (source.store.copyFrom handle) copied = .ok again settled ∧
      onStore (source.store.copyFrom handle) settled = .ok again settled := by
  have hcopied : Reachable copied := by
    have hafter := Reachable.copy handle hsource htarget
    rwa [after, hcopy] at hafter
  have hrun := eq_ok_of_onStore hcopy
  have hends := Store.copyFrom_ends hsource.sound.store htarget.sound.store handle
  rw [hrun] at hends
  have hsame : source.store.Bisimilar handle copied.store copy := hends.2
  rw [onStore_eq_self_iff]
  refine ⟨Store.copyFrom_eq_iff hsource.sound.store hcopied.sound.store hsame, fun hnew => ?_,
    fun hreferred => ?_, ?_⟩
  · exact Store.copyFrom_again hsource.sound.store htarget.sound.store hsource.frugal hnew hrun
  · obtain ⟨again, hfirst⟩ := Store.exists_isFirst hsame
    exact ⟨again, onStore_eq_self_iff.2
      (Store.copyFrom_of_isFirst hsource.sound.store hreferred hfirst)⟩
  · obtain ⟨node, -, hnode, -, -⟩ := hsame.unfold
    obtain ⟨again, settled, hagain, -⟩ :=
      exists_copy hsource hcopied (Store.lt_size_of_node? hnode)
    have hsettled := Store.copyFrom_again hsource.sound.store hcopied.sound.store hsource.frugal
      (Store.newOnce_of_bisimilar hsame) (eq_ok_of_onStore hagain)
    exact ⟨again, settled, hagain, onStore_eq_self_iff.2 hsettled⟩

/-- A graph without cycles is copied once, wherever it is copied to. -/
theorem copy_again_of_finite (hsource : Reachable source) (htarget : Reachable target)
    (hfinite : Layering.Finite source.store.node? handle)
    (hcopy : onStore (source.store.copyFrom handle) target = .ok copy copied) :
    onStore (source.store.copyFrom handle) copied = .ok copy copied :=
  onStore_eq_self_iff.2 (Store.copyFrom_again hsource.sound.store htarget.sound.store
    hsource.frugal (Store.newOnce_of_finite hfinite _) (eq_ok_of_onStore hcopy))

/-- The chain is copied into a catalog that has none, and found there when it is copied again. -/
theorem copy_again_chain :
    onStore (writtenCatalog.store.copyFrom 0) (after (onStore (writtenCatalog.store.copyFrom 0))
      chainCatalog) = .ok 0 (after (onStore (writtenCatalog.store.copyFrom 0)) chainCatalog) := by
  have hanswer : answer (onStore (writtenCatalog.store.copyFrom 0)) chainCatalog = some 0 := by
    cbv
  exact (copy_again reachable_writtenCatalog reachable_chainCatalog
    (eq_ok_of_answer hanswer)).2.1 fun _ _ _ _ _ _ => eq_of_bisimilar_writtenCatalog

/-! ## A graph with two nodes for one -/

/-- A record that refers to itself twice. -/
def leafType : TypeDef :=
  .record "G" [⟨"x", .named "G", false⟩, ⟨"y", .named "G", false⟩]

/-- A record with the same fields, one of which leads to the leaf. -/
def stemType : TypeDef :=
  .record "H" [⟨"x", .named "G", false⟩, ⟨"y", .named "H", false⟩]

/-- A catalog in which the stem has been built, with the leaf before it. -/
def stemCatalog : Catalog :=
  after (getOrAdd .write (.named "H")) (after (register stemType)
    (after (register leafType) (withProviders Provider.standard)))

theorem reachable_stemCatalog : Reachable stemCatalog :=
  .step (.getOrAdd .write (.named "H")) (.step (.register stemType)
    (.step (.register leafType) (.start Provider.standard)))

/-- The copy of the leaf comes before that of the stem and describes the same graph, so the
stem is found as the leaf when it is copied again. -/
theorem copy_differs_stem : Reachable stemCatalog ∧ ∃ copied again,
    onStore (stemCatalog.store.copyFrom 1) (withProviders Provider.standard) = .ok 1 copied ∧
      onStore (stemCatalog.store.copyFrom 1) copied = .ok 0 again := by
  have hcopy : answer (onStore (stemCatalog.store.copyFrom 1))
      (withProviders Provider.standard) = some 1 := by cbv
  have hagain : answer (onStore (stemCatalog.store.copyFrom 1))
      (after (onStore (stemCatalog.store.copyFrom 1)) (withProviders Provider.standard)) =
        some 0 := by cbv
  exact ⟨reachable_stemCatalog, _, _, eq_ok_of_answer hcopy, eq_ok_of_answer hagain⟩

end WireSchema.Catalog
