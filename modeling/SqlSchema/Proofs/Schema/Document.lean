import Mathlib.Logic.Function.Basic
import SqlSchema.Proofs.Definition
import SqlSchema.Proofs.Document.RoundTrip
import SqlSchema.Proofs.Schema.WellFormed
import SqlSchema.Schema.Document

/-! Documents of schemas. No part of a schema is lost in its document, and where all numbers of a schema are finite, so are
those of its document. -/
namespace SqlSchema
open Function

theorem Document.ofOption_injective {α : Type} {document : α → Document} (injective : Injective document)
    (some : ∀ a, document a ≠ .null) : Injective (Document.ofOption document) := by
  rintro (_ | a) (_ | b) same
  · rfl
  · exact absurd same.symm (some b)
  · exact absurd same (some a)
  · exact congrArg Option.some (injective same)

theorem Value.document_ne_null (v : Value) : v.document ≠ .null := nofun

theorem Value.document_injective : Injective Value.document := by
  intro v w same
  have parts : v.typeName = w.typeName ∧ v.raw = w.raw ∧ v.content = w.content := by simpa [document] using same
  cases v <;> cases w <;> simp_all [typeName, raw, content]

theorem Value.ofOption_document_injective : Injective (Document.ofOption Value.document) :=
  Document.ofOption_injective document_injective document_ne_null

theorem KeyOption.name_injective : Injective KeyOption.name := by
  intro k l
  cases k <;> cases l <;> decide

theorem Document.map_injective {α : Type} {document : α → Document} (injective : Injective document) {as bs : List α} :
    as.map document = bs.map document ↔ as = bs :=
  List.map_inj_right fun _ _ same => injective same

theorem Column.document_injective : Injective Column.document := by
  rintro ⟨⟩ ⟨⟩ same
  simp only [document, Document.mapping.injEq, List.cons.injEq, Prod.mk.injEq, Document.text.injEq, Document.bool.injEq,
    Document.list.injEq, true_and, and_true, Value.ofOption_document_injective.eq_iff, KeyOption.name_injective.eq_iff,
    Document.map_injective fun _ _ => Document.text.inj] at same
  obtain ⟨rfl, rfl, rfl, rfl, rfl, rfl, rfl, rfl, rfl, rfl⟩ := same
  rfl

theorem IndexColumn.document_injective : Injective IndexColumn.document := by
  rintro ⟨⟩ ⟨⟩ same
  simp only [document, Document.mapping.injEq, List.cons.injEq, Prod.mk.injEq, Document.text.injEq, true_and, and_true,
    Value.ofOption_document_injective.eq_iff] at same
  obtain ⟨rfl, rfl⟩ := same
  rfl

theorem Index.document_injective : Injective Index.document := by
  rintro ⟨⟩ ⟨⟩ same
  simp only [document, Document.mapping.injEq, List.cons.injEq, Prod.mk.injEq, Document.text.injEq, Document.bool.injEq,
    Document.list.injEq, true_and, and_true, Document.map_injective IndexColumn.document_injective] at same
  obtain ⟨rfl, rfl, rfl, rfl, rfl⟩ := same
  rfl

theorem Table.document_injective : Injective Table.document := by
  rintro ⟨⟩ ⟨⟩ same
  simp only [document, Document.mapping.injEq, List.cons.injEq, Prod.mk.injEq, Document.text.injEq, Document.list.injEq,
    true_and, and_true, Document.map_injective Column.document_injective,
    Document.map_injective Index.document_injective] at same
  obtain ⟨rfl, rfl, rfl⟩ := same
  rfl

namespace Definition

theorem document_injective : Injective Definition.document := by
  intro d e same
  cases d <;> cases e <;>
    simp_all [document, kind, statement, Table.document_injective.eq_iff, Index.document_injective.eq_iff]

theorem documents_injective : Injective Definition.documents := fun _ _ same =>
  (Document.map_injective document_injective).1 (Document.list.inj same)

end Definition

/-! Finite numbers. -/

namespace Document

theorem finite_mapping_iff {entries : List (String × Document)} :
    (Document.mapping entries).Finite ↔ ∀ entry ∈ entries, entry.2.Finite := by
  constructor
  · rintro ⟨⟩
    assumption
  · exact .mapping

theorem finite_ofOption {α : Type} {document : α → Document} {o : Option α} (finite : ∀ a ∈ o, (document a).Finite) :
    (Document.ofOption document o).Finite := by
  cases o with
  | none => exact .null
  | some a => exact finite a rfl

theorem finite_map {α : Type} {document : α → Document} {as : List α} (finite : ∀ a ∈ as, (document a).Finite) :
    (Document.list (as.map document)).Finite :=
  .list (List.forall_mem_map.2 finite)

end Document

open Document Attempt

theorem Value.finite_content {v : Value} (formed : v.WellFormed) : v.content.Finite := by
  cases v with
  | float raw value => exact .float (formed.finite value rfl)
  | integer | bit => constructor
  | _ => exact .text _

theorem Value.finite_document {v : Value} (formed : v.WellFormed) : v.document.Finite := by
  simp only [document, finite_mapping_iff, List.forall_mem_cons]
  exact ⟨.text _, .text _, finite_content formed, by simp⟩

theorem Value.finite_of_ofLiteral? {l : Option Tree.Literal} {found : Option Value} (given : (ofLiteral? l).Gives found) :
    (ofOption Value.document found).Finite :=
  finite_ofOption fun v member => finite_document (wellFormed_of_ofLiteral? given v member)

theorem Column.finite_of_ofTree (c : Tree.Column) (column : Column) (given : (Column.ofTree c).Gives column) :
    column.document.Finite := by
  simp only [Column.ofTree, gives_bind, gives_pure] at given
  obtain ⟨default, defaulted, length, lengthened, scale, scaled, keyOption, _, rfl⟩ := given
  simp only [document, finite_mapping_iff, List.forall_mem_cons]
  exact ⟨.text _, .text _, .bool _, .bool _, .bool _, Value.finite_of_ofLiteral? defaulted,
    Value.finite_of_ofLiteral? lengthened, Value.finite_of_ofLiteral? scaled, .text _, finite_map fun m _ => .text m, by simp⟩

theorem IndexColumn.finite_of_ofTree (c : Tree.IndexColumn) (column : IndexColumn)
    (given : (IndexColumn.ofTree c).Gives column) : column.document.Finite := by
  simp only [IndexColumn.ofTree, gives_bind, gives_pure] at given
  obtain ⟨length, lengthened, rfl⟩ := given
  simp only [document, finite_mapping_iff, List.forall_mem_cons]
  exact ⟨.text _, Value.finite_of_ofLiteral? lengthened, by simp⟩

theorem Index.finite_document {i : Index} (finite : ∀ c ∈ i.columns, c.document.Finite) : i.document.Finite := by
  simp only [document, finite_mapping_iff, List.forall_mem_cons]
  exact ⟨.text _, .text _, finite_map finite, .bool _, .bool _, by simp⟩

theorem Index.finite_of_ofTree (i : Tree.Index) (index : Index) (given : (Index.ofTree i).Gives index) :
    index.document.Finite := by
  simp only [Index.ofTree, gives_bind, gives_pure] at given
  obtain ⟨columns, decoded, rfl⟩ := given
  exact finite_document (forall_mapM (fun c column _ => IndexColumn.finite_of_ofTree c column) (fun _ _ => trivial) decoded)

theorem Table.finite_of_ofTree (name : String) (body : Tree.TableBody) (table : Table)
    (given : (Table.ofTree name body).Gives table) : table.document.Finite := by
  simp only [Table.ofTree, gives_bind, gives_pure] at given
  obtain ⟨columns, first, indexes, second, rfl⟩ := given
  simp only [document, finite_mapping_iff, List.forall_mem_cons]
  exact ⟨.text _,
    finite_map (forall_mapM (fun c column _ => Column.finite_of_ofTree c column) (fun _ _ => trivial) first),
    finite_map (forall_mapM (fun i index _ => Index.finite_of_ofTree i index) (fun _ _ => trivial) second), by simp⟩

theorem Index.finite_of_ofSpec (action : String) (spec : Option Tree.IndexSpec) (names : List String) (index : Index)
    (given : (Index.ofSpec action spec names).Gives index) : index.document.Finite := by
  cases spec with
  | none => simp [Index.ofSpec] at given
  | some spec =>
    obtain rfl := (gives_pure ..).mp given
    refine finite_document fun c member => ?_
    obtain ⟨name, -, rfl⟩ := List.mem_map.mp member
    simp only [IndexColumn.document, finite_mapping_iff, List.forall_mem_cons]
    exact ⟨.text _, .null, by simp⟩

namespace Definition

/-- Definitions that are read have finite numbers only. -/
theorem finite_of_read (d : Dialect) (text : String) (definition : Definition)
    (given : (read d text).Gives definition) : definition.document.Finite := by
  obtain ⟨s, -, given⟩ := (gives_read_iff ..).mp given
  cases decoded_of_ofTree text s definition given with
  | @table name body table filled decoded =>
    have finite := Table.finite_of_ofTree name body table decoded
    simp only [document, finite_mapping_iff, List.cons_append, List.nil_append, List.forall_mem_cons]
    exact ⟨.text _, .text _, finite, by simp⟩
  | @index define table index found decoded =>
    have finite := Index.finite_of_ofSpec _ _ _ index decoded
    unfold ofAction? at found
    split_ifs at found <;> cases found <;>
      simp only [document, finite_mapping_iff, List.cons_append, List.nil_append, List.forall_mem_cons] <;>
      exact ⟨.text _, .text _, .text _, finite, by simp⟩

end Definition
end SqlSchema
