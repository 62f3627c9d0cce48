import UmlDraft.Proofs.Run.Writing
import UmlDraft.Proofs.Skeleton.Source
import UmlDraft.Run.Pipeline

/-!
# Rendering the sources

A run renders the declarations of a diagram one by one. Under the renderer that never throws, the
sources are those of the diagram as a whole. Under any renderer each source has the name of a
declared type, which is the name of a file.
-/

namespace UmlDraft

variable {layout other : Style} {source name : String}

/-- Two layouts with one package and one indentation give the same files. -/
theorem Model.render_congr (hpackage : layout.packageName = other.packageName)
    (hindent : layout.indentation = other.indentation) (m : Model) :
    m.render layout = m.render other := by
  have hrender : ∀ d : Declaration, d.render layout m = d.render other m := fun d => by
    rw [Declaration.render, Declaration.render, Declaration.preamble, Declaration.preamble,
      Declaration.bodyText, Declaration.bodyText, hpackage, hindent]
  rw [Model.render, Model.render]
  exact congrArg Table.ofList (List.map_congr_left fun d _ => congrArg (d.name, ·) (hrender d))

namespace Run

variable {renderer : Renderer} {c : Config}

/-- The renderer that never throws renders the diagram as a whole. -/
theorem sourcesOf_plain (c : Config) (m : Model) :
    sourcesOf (renderings .plain c m) = m.render (style c) := by
  rw [sourcesOf, renderings, List.filterMap_map]
  exact congrArg Table.ofList (congrFun List.filterMap_eq_map' _)

/-- The layout of a run is the one that its configuration asks for, whether or not it says how to
indent. -/
theorem render_style (c : Config) (m : Model) :
    m.render (style c) = m.render { packageName := c.packageName, indent := c.indent } := by
  refine Model.render_congr rfl ?_ m
  unfold Style.indentation style
  cases c.indent <;> rfl

/-- Whatever is rendered was declared. -/
theorem mem_keys_of_mem_sources
    (h : name ∈ (sourcesOf (renderings renderer c (Model.ofText source))).keys) :
    name ∈ (Model.ofText source).declarations.keys := by
  rw [sourcesOf, Table.keys_ofList, List.mem_eraseDups, List.mem_map] at h
  obtain ⟨rendered, hrendered, rfl⟩ := h
  obtain ⟨r, hr, hsome⟩ := List.mem_filterMap.mp hrendered
  obtain ⟨d, hd, rfl⟩ := List.mem_map.mp hr
  obtain ⟨e, he, rfl⟩ := List.mem_map.mp hd
  split at hsome
  · cases hsome
    exact List.mem_map.mpr ⟨e, he, (Model.name_of_mem_entries source e he).symm⟩
  · cases hsome

/-- Every declared name is the name of a file. -/
theorem isFileName_of_mem_keys (h : name ∈ (Model.ofText source).declarations.keys) :
    WriteResult.IsFileName (name ++ extension) := by
  have hname := Model.isName_of_mem_keys h
  have hlength : ∀ short : String, short.length < 5 → name ++ extension ≠ short := by
    intro short hshort heq
    have hlengths := congrArg String.length heq
    rw [String.length_append] at hlengths
    have hextension : extension.length = 5 := rfl
    omega
  refine ⟨⟨hlength "" (by decide), hlength "." (by decide), hlength ".." (by decide)⟩, ?_⟩
  rw [String.toList_append, List.mem_append, not_or]
  exact ⟨hname.not_mem (by decide), by decide⟩

end Run

end UmlDraft
