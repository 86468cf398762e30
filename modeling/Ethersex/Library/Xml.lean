import Mathlib

/-!
# XML elements and their text

Elements with attributes and content, and how they are written in bytes.  Values and character data
are kept as they are written, references included.
-/

namespace Ethersex.Library.Xml

/-- The bytes of the encoded characters. -/
def Legal (ch : UInt8) : Prop := 32 ≤ ch ∨ ch = 9 ∨ ch = 10 ∨ ch = 13

def Space (ch : UInt8) : Prop := ch = 32 ∨ ch = 9 ∨ ch = 10 ∨ ch = 13

/-- Neither a space nor one of the characters that end a name. -/
def NameChar (ch : UInt8) : Prop := 33 ≤ ch ∧ ch ∉ [34, 38, 39, 47, 60, 61, 62]

instance : DecidablePred Legal := fun ch =>
  inferInstanceAs (Decidable (32 ≤ ch ∨ ch = 9 ∨ ch = 10 ∨ ch = 13))

instance : DecidablePred Space := fun ch =>
  inferInstanceAs (Decidable (ch = 32 ∨ ch = 9 ∨ ch = 10 ∨ ch = 13))

instance : DecidablePred NameChar := fun ch =>
  inferInstanceAs (Decidable (33 ≤ ch ∧ ch ∉ [34, 38, 39, 47, 60, 61, 62]))

/-- An attribute with the spaces in front of it and around its equals sign. -/
structure Attribute where
  space : List UInt8
  name : List UInt8
  before : List UInt8
  after : List UInt8
  quote : UInt8
  value : List UInt8

namespace Attribute

variable (attr : Attribute)

def text : List UInt8 :=
  attr.space ++ attr.name ++ attr.before ++ [61] ++ attr.after ++
    [attr.quote] ++ attr.value ++ [attr.quote]

/-- Either quote is allowed, and the value has neither it nor a less-than sign. -/
structure WellFormed : Prop where
  separated : attr.space ≠ []
  space : ∀ ch ∈ attr.space, Space ch
  named : attr.name ≠ []
  name : ∀ ch ∈ attr.name, NameChar ch
  before : ∀ ch ∈ attr.before, Space ch
  after : ∀ ch ∈ attr.after, Space ch
  quote : attr.quote = 39 ∨ attr.quote = 34
  value : ∀ ch ∈ attr.value, Legal ch ∧ ch ≠ 60 ∧ ch ≠ attr.quote

end Attribute

/-- The attributes of an element have different names. -/
structure Attributes (attributes : List Attribute) : Prop where
  each : ∀ attr ∈ attributes, attr.WellFormed
  distinct : (attributes.map Attribute.name).Nodup

/-- What an element contains. -/
inductive Node where
  | chars (content : List UInt8)
  | cdata (content : List UInt8)
  | empty (name : List UInt8) (attributes : List Attribute) (space : List UInt8)
  | element (name : List UInt8) (attributes : List Attribute) (space : List UInt8)
      (children : List Node) (final : List UInt8)

/-- `<![CDATA[`. -/
def cdataStart : List UInt8 := [60, 33, 91, 67, 68, 65, 84, 65, 91]

/-- `]]>`. -/
def cdataEnd : List UInt8 := [93, 93, 62]

/-- What a start tag has in front of its end. -/
def tag (name : List UInt8) (attributes : List Attribute) (space : List UInt8) : List UInt8 :=
  60 :: name ++ attributes.flatMap Attribute.text ++ space

mutual

def Node.text : Node → List UInt8
  | .chars content => content
  | .cdata content => cdataStart ++ content ++ cdataEnd
  | .empty name attributes space => tag name attributes space ++ [47, 62]
  | .element name attributes space children final =>
      tag name attributes space ++ 62 :: contentText children ++ 60 :: 47 :: name ++ final ++ [62]

/-- The text of an element's content. -/
def contentText : List Node → List UInt8
  | [] => []
  | node :: rest => node.text ++ contentText rest

end

/-- A start tag. -/
structure Tag (name : List UInt8) (attributes : List Attribute) (space : List UInt8) : Prop where
  named : name ≠ []
  name : ∀ ch ∈ name, NameChar ch
  attributes : Attributes attributes
  space : ∀ ch ∈ space, Space ch

mutual

def Node.WellFormed : Node → Prop
  | .chars content => ∀ ch ∈ content, Legal ch ∧ ch ≠ 60
  | .cdata content => (∀ ch ∈ content, Legal ch) ∧ ¬cdataEnd <:+: content
  | .empty name attributes space => Tag name attributes space
  | .element name attributes space children final =>
      Tag name attributes space ∧ ContentWellFormed children ∧ ∀ ch ∈ final, Space ch

def ContentWellFormed : List Node → Prop
  | [] => True
  | node :: rest => node.WellFormed ∧ ContentWellFormed rest

end

/-! ## Characters -/

theorem Space.legal {ch : UInt8} (space : Space ch) : Legal ch := by
  rcases space with rfl | rfl | rfl | rfl <;> decide

theorem NameChar.legal {ch : UInt8} (name : NameChar ch) : Legal ch :=
  .inl (Std.le_trans (by decide) name.1)

theorem Legal.ne_zero {ch : UInt8} (legal : Legal ch) : ch ≠ 0 := by
  rintro rfl
  exact absurd legal (by decide)

theorem Attribute.WellFormed.legal {attr : Attribute} (wellFormed : attr.WellFormed) :
    ∀ ch ∈ attr.text, Legal ch := by
  have quoted : Legal attr.quote := by
    rcases wellFormed.quote with same | same <;> rw [same] <;> decide
  simp only [Attribute.text, List.forall_mem_append, List.forall_mem_singleton]
  exact ⟨⟨⟨⟨⟨⟨⟨fun ch member => (wellFormed.space ch member).legal,
    fun ch member => (wellFormed.name ch member).legal⟩,
    fun ch member => (wellFormed.before ch member).legal⟩, by decide⟩,
    fun ch member => (wellFormed.after ch member).legal⟩, quoted⟩,
    fun ch member => (wellFormed.value ch member).1⟩, quoted⟩

theorem Tag.legal {name space : List UInt8} {attributes : List Attribute}
    (well : Tag name attributes space) : ∀ ch ∈ tag name attributes space, Legal ch := by
  simp only [tag, List.forall_mem_append, List.forall_mem_cons, List.forall_mem_flatMap]
  exact ⟨⟨⟨by decide, fun ch member => (well.name ch member).legal⟩,
    fun attr member => (well.attributes.each attr member).legal⟩,
    fun ch member => (well.space ch member).legal⟩

mutual

/-- All characters of a text are legal. -/
theorem Node.WellFormed.legal : ∀ {node : Node}, node.WellFormed → ∀ ch ∈ node.text, Legal ch
  | .chars content, wellFormed => fun ch member => by
      rw [Node.text] at member
      rw [Node.WellFormed] at wellFormed
      exact (wellFormed ch member).1
  | .cdata content, wellFormed => by
      rw [Node.WellFormed] at wellFormed
      rw [Node.text]
      simp only [List.forall_mem_append]
      exact ⟨⟨by decide +kernel, wellFormed.1⟩, by decide +kernel⟩
  | .empty name attributes space, wellFormed => by
      rw [Node.WellFormed] at wellFormed
      rw [Node.text]
      simp only [List.forall_mem_append]
      exact ⟨wellFormed.legal, by decide +kernel⟩
  | .element name attributes space children final, wellFormed => by
      rw [Node.WellFormed] at wellFormed
      obtain ⟨well, content, spaces⟩ := wellFormed
      rw [Node.text]
      have named : ∀ ch ∈ name, Legal ch := fun ch member => (well.name ch member).legal
      have ended : ∀ ch ∈ final, Legal ch := fun ch member => (spaces ch member).legal
      simp only [List.forall_mem_append, List.forall_mem_cons]
      exact ⟨⟨⟨⟨well.legal, by decide, content.legal⟩, by decide, by decide, named⟩, ended⟩,
        by decide +kernel⟩

theorem ContentWellFormed.legal : ∀ {children : List Node}, ContentWellFormed children →
    ∀ ch ∈ contentText children, Legal ch
  | [], _ => fun ch member => by
      rw [contentText] at member
      exact absurd member List.not_mem_nil
  | node :: rest, wellFormed => by
      rw [ContentWellFormed] at wellFormed
      rw [contentText, List.forall_mem_append]
      exact ⟨wellFormed.1.legal, wellFormed.2.legal⟩

end

end Ethersex.Library.Xml
