import Regen.Proofs.Nesting

/-!
# The two families of a pair

An end marker ends the innermost open block, of whichever family that is. Families are compared in one
place only: an end marker that stands right behind an open marker has to be of its family. So a pair may
mix the families as soon as it holds another block (`Document.not_unmixed`), and what can be relied on is
this: **a block that holds no other is ended in its family, and a block that mixes the families holds one
that does not** (`Document.exists_unmixed`).
-/

namespace Regen

/-- **A block is unmixed** if its two markers are of one family. -/
def Block.Unmixed (b : Block) : Prop := b.ending.family = b.opening.family

instance (b : Block) : Decidable b.Unmixed := inferInstanceAs (Decidable (b.ending.family = b.opening.family))

variable {t : Text}

/-- An end marker right behind the open marker of its block is of the same family. -/
theorem Block.unmixed_of_not_clashes {b : Block} (hopens : b.opening.isEnd = false)
    (hends : b.ending.isEnd = true) (hclash : Pairing.clashes (some b.opening) b.ending = false) :
    b.Unmixed := by
  have hfamily : b.opening.family = b.ending.family := by
    simpa [Pairing.clashes, hopens, hends] using hclash
  exact hfamily.symm

/-- **Inside a block, if anything is there, there is an unmixed block**: the first of the innermost ones. -/
theorem Inside.exists_mem_unmixed {family : Family} {isInline : Bool} {depth : Nat} {p q : Marker}
    {marks : List Mark} (h : Inside t family isInline depth p marks q) (hne : marks ≠ []) :
    ∃ c ∈ Mark.blocks marks, c.Unmixed := by
  induction h with
  | nil => exact absurd rfl hne
  | @block _ _ _ _ _ _ b inner _ hopens hends _ _ _ _ hinner _ hclash _ ihInner _ =>
    cases inner with
    | nil =>
      cases hinner
      exact ⟨b, by simp, Block.unmixed_of_not_clashes hopens hends hclash⟩
    | cons m inner =>
      obtain ⟨c, hc, hunmixed⟩ := ihInner (List.cons_ne_nil m inner)
      refine ⟨c, ?_, hunmixed⟩
      rw [Mark.blocks_opening, Mark.blocks_append]
      exact List.mem_cons_of_mem _ (List.mem_append_left _ hc)

/-- What a block encloses, if it holds no other, is nothing, and the block is unmixed. -/
theorem Encloses.unmixed_or_exists {depth : Nat} {b : Block} {inner : List Mark}
    (h : Encloses t depth b inner) : inner = [] ∧ b.Unmixed ∨ ∃ c ∈ Mark.blocks inner, c.Unmixed := by
  obtain ⟨q, hinside, -, hclash⟩ := h.layout
  cases inner with
  | nil =>
    cases hinside
    exact .inl ⟨rfl, Block.unmixed_of_not_clashes h.opens h.ends hclash⟩
  | cons m inner => exact .inr (hinside.exists_mem_unmixed (List.cons_ne_nil m inner))

/-! ## Blocks at any depth -/

/-- **What a block holds**: the marks between its two marks. -/
def Block.Holds (b : Block) (marks inner : List Mark) : Prop :=
  .opening b :: (inner ++ [.ending b]) <:+: marks

/-- A block in front of some marks holds what stands between its marks. -/
theorem Block.holds_cons (b : Block) (inner rest : List Mark) :
    b.Holds (.opening b :: (inner ++ .ending b :: rest)) inner :=
  ⟨[], rest, by simp⟩

/-- What a block inside of another holds does not depend on the other. -/
theorem Block.Holds.of_inner {b c : Block} {inner marks rest : List Mark} (h : b.Holds inner marks) :
    b.Holds (.opening c :: (inner ++ .ending c :: rest)) marks :=
  h.trans ⟨[.opening c], .ending c :: rest, by simp⟩

/-- What a block behind another holds does not depend on the other. -/
theorem Block.Holds.of_rest {b c : Block} {inner marks rest : List Mark} (h : b.Holds rest marks) :
    b.Holds (.opening c :: (inner ++ .ending c :: rest)) marks :=
  h.trans ⟨.opening c :: (inner ++ [.ending c]), [], by simp⟩

/-- Each block inside of another encloses what it holds. -/
theorem Inside.exists_holds {family : Family} {isInline : Bool} {depth : Nat} {p q : Marker}
    {marks : List Mark} (h : Inside t family isInline depth p marks q) :
    ∀ b ∈ Mark.blocks marks, ∃ depth inner, Encloses t depth b inner ∧ b.Holds marks inner := by
  induction h with
  | nil => simp
  | @block _ _ depth _ _ _ b inner rest hopens hends hformed _ _ _ hinner hclose hclash _ ihInner ihRest =>
    intro c hc
    rw [Mark.blocks_opening, Mark.blocks_append, Mark.blocks_ending, List.mem_cons,
      List.mem_append] at hc
    rcases hc with rfl | hc | hc
    · exact ⟨depth, inner, ⟨hopens, hends, hformed, _, hinner, hclose, hclash⟩, c.holds_cons inner rest⟩
    · obtain ⟨k, held, hencloses, hholds⟩ := ihInner c hc
      exact ⟨k, held, hencloses, hholds.of_inner⟩
    · obtain ⟨k, held, hencloses, hholds⟩ := ihRest c hc
      exact ⟨k, held, hencloses, hholds.of_rest⟩

/-- Each block of a text encloses what it holds. -/
theorem Outermost.exists_holds {previous? : Option Block} {marks : List Mark}
    (h : Outermost t previous? marks) :
    ∀ b ∈ Mark.blocks marks, ∃ depth inner, Encloses t depth b inner ∧ b.Holds marks inner := by
  induction h with
  | nil => simp
  | @block _ b inner rest henclosed _ _ ih =>
    intro c hc
    rw [Mark.blocks_opening, Mark.blocks_append, Mark.blocks_ending, List.mem_cons,
      List.mem_append] at hc
    rcases hc with rfl | hc | hc
    · exact ⟨1, inner, henclosed, c.holds_cons inner rest⟩
    · obtain ⟨q, hinside, -⟩ := henclosed.layout
      obtain ⟨k, held, hencloses, hholds⟩ := hinside.exists_holds c hc
      exact ⟨k, held, hencloses, hholds.of_inner⟩
    · obtain ⟨k, held, hencloses, hholds⟩ := ih c hc
      exact ⟨k, held, hencloses, hholds.of_rest⟩

namespace Document

/-- **A block that holds nothing is unmixed, and one that is not unmixed holds an unmixed one.** -/
theorem exists_unmixed {s : Settings} {d : Document} (hd : parse s t = .ok d) :
    ∀ b ∈ d.blocks, ∃ inner, b.Holds d.marks inner ∧ (inner = [] → b.Unmixed) ∧
      (¬ b.Unmixed → ∃ c ∈ Mark.blocks inner, c.Unmixed) := by
  obtain ⟨-, -, houter, -⟩ := parse_eq_ok_iff.1 hd
  intro b hb
  obtain ⟨depth, inner, hencloses, hholds⟩ := houter.exists_holds b hb
  refine ⟨inner, hholds, ?_, fun hmixed => ?_⟩
  · rintro rfl
    exact hencloses.unmixed_or_exists.elim And.right fun ⟨c, hc, _⟩ => absurd hc (by simp)
  · exact hencloses.unmixed_or_exists.elim (fun h => absurd h.2 hmixed) id

/-- An edit block inside a block that is opened by a generation marker and ended by an edit marker. -/
def mixed : Document :=
  ((parse .standard "[[[ a ]]]\n<<[ b ]>>\n<<[ end ]>>\n<<[ end ]>>\n").toOption).getD
    { source := [], marks := [], edits := [] }

/-- The outer block is mixed, and holds the marks of the edit block, which is unmixed. -/
theorem exists_unmixed_nested :
    parse .standard "[[[ a ]]]\n<<[ b ]>>\n<<[ end ]>>\n<<[ end ]>>\n" = .ok mixed ∧
      ∃ b ∈ mixed.blocks, ¬ b.Unmixed ∧ ∃ inner, b.Holds mixed.marks inner ∧
        ∃ c ∈ Mark.blocks inner, c.Unmixed := by
  have hd : parse .standard "[[[ a ]]]\n<<[ b ]>>\n<<[ end ]>>\n<<[ end ]>>\n" = .ok mixed := by rfl
  have hmixed : ∃ b ∈ mixed.blocks, ¬ b.Unmixed := by decide +kernel
  obtain ⟨b, hb, hb'⟩ := hmixed
  obtain ⟨inner, hholds, -, hunmixed⟩ := exists_unmixed hd b hb
  exact ⟨hd, b, hb, hb', inner, hholds, hunmixed hb'⟩

/-- **Pairs do mix the families**: only an end marker right behind an open marker is compared with it, so
one behind the end marker of an inner block may end a block of the other family. -/
theorem not_unmixed :
    ¬ ∀ (s : Settings) (t : Text) (d : Document), parse s t = .ok d → ∀ b ∈ d.blocks, b.Unmixed := by
  intro h
  have hmixed : ¬ ∀ b ∈ mixed.blocks, b.Unmixed := by decide +kernel
  exact hmixed (h .standard "[[[ a ]]]\n<<[ b ]>>\n<<[ end ]>>\n<<[ end ]>>\n" mixed (by rfl))

end Document

end Regen
