import BlockScript.Proofs.Script.Tree

namespace BlockScript

/-- A finite sequence of blocks, or one that goes on for ever. Of the latter kind is also one that
has no more blocks but only turns in an empty loop. -/
inductive Unrolling where
  | finite (blocks : List Handle)
  | endless (block? : Nat → Option Handle)

namespace Unrolling

variable {xs ys : List Handle} {u v w : Unrolling} {h : Handle} {P : Handle → Prop}

def append : Unrolling → Unrolling → Unrolling
  | finite xs, finite ys => finite (xs ++ ys)
  | finite xs, endless f => endless fun n => if n < xs.length then xs[n]? else f (n - xs.length)
  | endless f, _ => endless f

def times (u : Unrolling) : Nat → Unrolling
  | 0 => finite []
  | count + 1 => u.append (u.times count)

def forever : Unrolling → Unrolling
  | finite xs => endless fun n => xs[n % xs.length]?
  | endless f => endless f

def StartsWith : Unrolling → List Handle → Prop
  | finite xs, ys => ys <+: xs
  | endless f, ys => ∀ n < ys.length, f n = ys[n]?

/-- Whether a block comes up in a sequence. -/
def Contains : Unrolling → Handle → Prop
  | finite xs, h => h ∈ xs
  | endless f, h => ∃ n, f n = some h

@[simp] theorem nil_append (u : Unrolling) : (finite []).append u = u := by
  cases u <;> simp [append]

@[simp] theorem append_nil (u : Unrolling) : u.append (finite []) = u := by
  cases u <;> simp [append]

theorem append_assoc (u v w : Unrolling) : (u.append v).append w = u.append (v.append w) := by
  cases u with
  | endless f => rfl
  | finite xs =>
    cases v with
    | endless f => rfl
    | finite ys =>
      cases w with
      | finite zs => simp [append]
      | endless f =>
        simp only [append, endless.injEq]
        funext n
        rw [List.length_append]
        by_cases hx : n < xs.length
        · rw [if_pos (Nat.lt_add_right _ hx), if_pos hx, List.getElem?_append_left hx]
        · rw [if_neg hx, List.getElem?_append_right (Nat.le_of_not_lt hx), Nat.sub_sub]
          exact if_congr (by omega) rfl rfl

/-- The first round of what goes on for ever can be taken apart from the others. -/
theorem append_forever (u : Unrolling) : u.append u.forever = u.forever := by
  cases u with
  | endless f => rfl
  | finite xs =>
    simp only [append, forever, endless.injEq]
    funext n
    split
    · next hn => rw [Nat.mod_eq_of_lt hn]
    · next hn => rw [← Nat.mod_eq_sub_mod (Nat.le_of_not_lt hn)]

theorem startsWith_append (xs : List Handle) (u : Unrolling) :
    ((finite xs).append u).StartsWith xs := by
  cases u with
  | finite ys => exact List.prefix_append xs ys
  | endless f =>
    intro n hn
    exact if_pos hn

theorem finite_of_append (h : u.append v = finite xs) :
    ∃ ys zs, u = finite ys ∧ v = finite zs := by
  cases u with
  | endless f => contradiction
  | finite ys =>
    cases v with
    | endless f => contradiction
    | finite zs => exact ⟨ys, zs, rfl, rfl⟩

theorem forever_ne_finite : u.forever ≠ finite xs := by
  cases u <;> exact nofun

theorem contains_append_left (hu : u.Contains h) : (u.append v).Contains h := by
  cases u with
  | endless f => exact hu
  | finite xs =>
    cases v with
    | finite ys => exact List.mem_append_left ys hu
    | endless f =>
      obtain ⟨n, hn, rfl⟩ := List.getElem_of_mem hu
      exact ⟨n, (if_pos hn).trans (List.getElem?_eq_getElem hn)⟩

theorem contains_append_right (hv : v.Contains h) : ((finite xs).append v).Contains h := by
  cases v with
  | finite ys => exact List.mem_append_right xs hv
  | endless f =>
    obtain ⟨n, hn⟩ := hv
    have hbehind : ¬ xs.length + n < xs.length := Nat.not_lt_of_le (Nat.le_add_right _ _)
    have hfound : f (xs.length + n - xs.length) = some h := by
      rw [Nat.add_sub_cancel_left]
      exact hn
    exact ⟨xs.length + n, (if_neg hbehind).trans hfound⟩

/-- Whether a sequence ends if it has no block of a kind. -/
def EndsWithout (P : Handle → Prop) (u : Unrolling) : Prop :=
  (∀ h, u.Contains h → ¬ P h) → ∃ xs, u = finite xs

theorem EndsWithout.append (hu : u.EndsWithout P) (hv : v.EndsWithout P) :
    (u.append v).EndsWithout P := by
  intro hfree
  obtain ⟨xs, rfl⟩ := hu fun h hh => hfree h (contains_append_left hh)
  obtain ⟨ys, rfl⟩ := hv fun h hh => hfree h (contains_append_right hh)
  exact ⟨xs ++ ys, rfl⟩

theorem EndsWithout.times (hu : u.EndsWithout P) (count : Nat) : (u.times count).EndsWithout P := by
  induction count with
  | zero => exact fun _ => ⟨[], rfl⟩
  | succ count ih => exact hu.append ih

end Unrolling

mutual

/-- What a block adds to the sequence: itself, and if it is a loop the rounds of what is below. -/
def Tree.unroll : Tree → Unrolling
  | .node h .forever children => .append (.finite [h]) (Tree.unrollAll children).forever
  | .node h (.loop times) children =>
    .append (.finite [h]) ((Tree.unrollAll children).times (max 1 times.toNat))
  | .node h _ _ => .finite [h]

def Tree.unrollAll : List Tree → Unrolling
  | [] => .finite []
  | tree :: rest => tree.unroll.append (Tree.unrollAll rest)

end

theorem Tree.unrollAll_append (xs ys : List Tree) :
    Tree.unrollAll (xs ++ ys) = (Tree.unrollAll xs).append (Tree.unrollAll ys) := by
  induction xs with
  | nil => exact (Unrolling.nil_append _).symm
  | cons tree xs ih =>
    rw [List.cons_append, Tree.unrollAll, ih, Tree.unrollAll, Unrolling.append_assoc]

theorem Tree.unrollAll_singleton (tree : Tree) : Tree.unrollAll [tree] = tree.unroll := by
  rw [Tree.unrollAll, Tree.unrollAll, Unrolling.append_nil]

namespace Script

variable {s : Script} {h : Handle}

/-- The sequence for the blocks in a container. -/
def unrolling (s : Script) (h : Handle) : Unrolling := Tree.unrollAll (s.trees (s.children h))

/-- A loop without an end. -/
def IsForever (s : Script) (h : Handle) : Prop := s.instruction? h = some .forever

theorem endsWithout_unrollAll {list : List Handle}
    (hlist : ∀ h ∈ list, ∀ tree, s.tree? h = some tree → tree.unroll.EndsWithout s.IsForever) :
    (Tree.unrollAll (s.trees list)).EndsWithout s.IsForever := by
  induction list with
  | nil => exact fun _ => ⟨[], rfl⟩
  | cons h list ih =>
    obtain ⟨hhead, htail⟩ := List.forall_mem_cons.1 hlist
    cases htree : s.tree? h with
    | none =>
      rw [trees, List.filterMap_cons_none htree]
      exact ih htail
    | some tree =>
      rw [trees_cons_of_tree htree]
      exact (hhead tree htree).append (ih htail)

theorem Sound.endsWithout_unroll (hs : s.WellFormed) {tree : Tree} (htree : s.tree? h = some tree) :
    tree.unroll.EndsWithout s.IsForever := by
  cases hb : s.block? h with
  | none => rw [tree?_of_not_stored hb] at htree; contradiction
  | some block =>
    revert tree
    refine hs.upwards (P := fun h => ∀ {tree}, s.tree? h = some tree →
      tree.unroll.EndsWithout s.IsForever) (fun h block hb ih tree htree => ?_) hb
    rw [hs.tree?_eq hb] at htree
    obtain rfl := Option.some.inj htree
    have hbody := endsWithout_unrollAll fun c hc tree => ih c hc
    have hself : (Unrolling.finite [h]).EndsWithout s.IsForever := fun _ => ⟨[h], rfl⟩
    cases hi : block.instruction with
    | forever =>
      intro hfree
      have hforever : s.IsForever h := by
        rw [IsForever, instruction?, hb, Option.map_some, hi]
      have hself : (Unrolling.finite [h]).Contains h := List.mem_singleton.2 rfl
      exact absurd hforever (hfree h (Unrolling.contains_append_left hself))
    | loop times => exact hself.append (hbody.times _)
    | _ => exact hself

theorem Sound.endsWithout_unrolling (hs : s.WellFormed) (h : Handle) :
    (s.unrolling h).EndsWithout s.IsForever :=
  endsWithout_unrollAll fun _ _ _ => hs.endsWithout_unroll

end Script

end BlockScript
