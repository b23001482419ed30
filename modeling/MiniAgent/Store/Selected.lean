import MiniAgent.Store.Tables
import MiniAgent.Turn.Acceptance

/-!
# The selected version of a Turn

Most changes of a Turn are changes of its selected version. A running Turn takes any version that is
well formed.
-/

namespace MiniAgent.Store

open Lib Turn

variable {host : Host} {node : ValidTurn host}

def withSelected (t : RuntimeState) (version : List Fields) : RuntimeState :=
  { t with data := t.data.set t.currentDataIdx version }

theorem rebuild_of_wf {s : RuntimeState} (h : s.Wf host) : rebuild host s = .ok ⟨s, h⟩ := by
  have hclone := RuntimeState.clone_eq h
  unfold rebuild
  split
  · next t ht =>
    obtain rfl : t = s := Except.ok.inj (ht.symm.trans hclone)
    rfl
  · next e he => cases he.symm.trans hclone

/-- A running Turn with another selected version. -/
theorem withSelected_wf {version : List Fields} (hversion : VersionOk version)
    (hrunning : node.val.status = .running) : (withSelected node.val version).Wf host :=
  { node.property with
    data := by
      refine validateData_of_ok ?_ fun v hv => ?_
      · simpa [withSelected] using node.property.data_ne_nil
      · rcases List.mem_or_eq_of_mem_set hv with hv | rfl
        · exact node.property.versionOk v hv
        · exact hversion
    currentDataIdx := by simpa [withSelected] using node.property.currentDataIdx
    ends := fun h => absurd hrunning h
    settled := fun h => absurd hrunning h }

theorem selected_withSelected {version : List Fields} :
    selected (withSelected node.val version) = version := by
  simp [selected, withSelected, node.property.currentDataIdx]

theorem getElem?_selected (node : ValidTurn host) :
    node.val.data[node.val.currentDataIdx]? = some (selected node.val) := by
  rw [selected, List.getD_eq_getElem?_getD, List.getElem?_eq_getElem node.property.currentDataIdx,
    Option.getD_some]

theorem selected_versionOk (node : ValidTurn host) : VersionOk (selected node.val) :=
  node.property.versionOk _ (List.mem_of_getElem? (getElem?_selected node))

end MiniAgent.Store
