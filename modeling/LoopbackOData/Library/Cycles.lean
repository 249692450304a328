import Mathlib

/-!
# Cycles of a relation

What a depth-first search knows about a graph. The nodes that it has left are settled: they lead
only to each other, and none of them lies on a cycle. The nodes that it has entered and not left
form a path, and an edge back to a node of the path closes a cycle.
-/

namespace Cycles

set_option autoImplicit false

universe u
variable {ν : Type u} {edge : ν → ν → Prop} {done : ν → Prop} {a b node : ν}

open Relation

def Cyclic (edge : ν → ν → Prop) : Prop := ∃ node, TransGen edge node node

structure Settled (edge : ν → ν → Prop) (done : ν → Prop) : Prop where
  closed : ∀ a b, done a → edge a b → done b
  acyclic : ∀ a, done a → ¬ TransGen edge a a

namespace Settled

theorem none : Settled edge fun _ => False := ⟨fun _ _ h => h.elim, fun _ h => h.elim⟩

theorem of_reflTransGen (h : Settled edge done) (ha : done a) (hab : ReflTransGen edge a b) :
    done b := by
  induction hab with
  | refl => exact ha
  | tail _ hstep ih => exact h.closed _ _ ih hstep

/-- A node that leads to settled nodes only is settled as well. -/
theorem insert (h : Settled edge done) (hnode : ¬ done node) (hnext : ∀ b, edge node b → done b) :
    Settled edge fun a => a = node ∨ done a where
  closed := by
    rintro a b (rfl | ha) hab
    · exact .inr (hnext b hab)
    · exact .inr (h.closed a b ha hab)
  acyclic := by
    rintro a (rfl | ha) hcycle
    · obtain ⟨b, hab, hba⟩ := TransGen.head'_iff.mp hcycle
      exact hnode (h.of_reflTransGen (hnext b hab) hba)
    · exact h.acyclic a ha hcycle

theorem not_cyclic (h : Settled edge done) (hall : ∀ a b, edge a b → done a) : ¬ Cyclic edge := by
  rintro ⟨node, hcycle⟩
  obtain ⟨b, hab, -⟩ := TransGen.head'_iff.mp hcycle
  exact h.acyclic node (hall node b hab) hcycle

end Settled

/-- An edge from the end of a path to a node of the path. -/
theorem cyclic_of_path {path : List ν} (hpath : (path ++ [a]).IsChain edge)
    (hb : b ∈ path ++ [a]) (hab : edge a b) : Cyclic edge := by
  obtain ⟨before, after, hsplit⟩ := List.append_of_mem hb
  rw [hsplit] at hpath
  have hlast : (b :: after).getLast (List.cons_ne_nil _ _) = a := by
    have hend := congrArg List.getLast? hsplit
    rw [List.getLast?_concat, List.getLast?_append_cons, List.getLast?_eq_some_getLast
      (List.cons_ne_nil _ _)] at hend
    exact (Option.some.inj hend).symm
  have hreach : ReflTransGen edge b a := by
    rw [← hlast]
    exact List.relationReflTransGen_of_exists_isChain_cons after hpath.right_of_append rfl
  exact ⟨a, .head' hab hreach⟩

/-! ## How many nodes are left -/

variable [DecidableEq ν]

/-- The nodes of a list that have not been visited. -/
def unvisited (nodes visited : List ν) : List ν := nodes.filter fun node => node ∉ visited

theorem unvisited_length_lt {nodes visited : List ν} (hmem : node ∈ nodes)
    (hnode : node ∉ visited) :
    (unvisited nodes (node :: visited)).length < (unvisited nodes visited).length := by
  have hsub : unvisited nodes (node :: visited)
      = (unvisited nodes visited).filter fun other => other ≠ node := by
    rw [unvisited, unvisited, List.filter_filter]
    refine List.filter_congr fun other _ => ?_
    simp [not_or]
  rw [hsub]
  refine List.length_filter_lt_length_iff_exists.mpr ⟨node, ?_, by simp⟩
  exact List.mem_filter.mpr ⟨hmem, by simpa using hnode⟩

theorem unvisited_length_le {nodes visited visited' : List ν}
    (h : ∀ node, node ∈ visited → node ∈ visited') :
    (unvisited nodes visited').length ≤ (unvisited nodes visited).length := by
  refine (List.monotone_filter_right nodes ?_).length_le
  intro node hnode
  have hmem : node ∉ visited' := by simpa using hnode
  simpa using fun h' => hmem (h node h')

end Cycles
