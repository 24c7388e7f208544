import CallTargets.Program.Document
import CallTargets.Proofs.Ty.Codec

/-!
# Codecs of programs

Constants and indices are integers of 64 bits in a document, and all other numbers of a program
besides its types are natural numbers of 32 bits. Each part of a program `Fits` if its numbers
have these widths, and has a codec then.
-/

namespace CallTargets

open Json

/-! ## Names -/

def ValueId.Fits (v : ValueId) : Prop := v.index < 2 ^ 32

def FunctionId.Fits (f : FunctionId) : Prop := f.index < 2 ^ 32

def GlobalId.Fits (g : GlobalId) : Prop := g.index < 2 ^ 32

def ModuleId.Fits (m : ModuleId) : Prop := m.index < 2 ^ 32

def BlockId.Fits (b : BlockId) : Prop := b.index < 2 ^ 32

theorem ValueId.codec : Codec toJson ofJson? Fits := .ofIndex (fun _ => rfl) fun _ => rfl

theorem FunctionId.codec : Codec toJson ofJson? Fits := .ofIndex (fun _ => rfl) fun _ => rfl

theorem GlobalId.codec : Codec toJson ofJson? Fits := .ofIndex (fun _ => rfl) fun _ => rfl

theorem ModuleId.codec : Codec toJson ofJson? Fits := .ofIndex (fun _ => rfl) fun _ => rfl

theorem BlockId.codec : Codec toJson ofJson? Fits := .ofIndex (fun _ => rfl) fun _ => rfl

/-! ## Instructions and constants -/

theorem CastOp.codec : Codec toJson ofJson? fun _ => True where
  plain op := plain_text op.text
  read {op} _ := by cases op <;> rfl
  fits _ := trivial

namespace GepIndex

def Fits : GepIndex → Prop
  | const n => -2 ^ 63 ≤ n ∧ n < 2 ^ 63
  | dynamic v => v.Fits

theorem codec : Codec toJson ofJson? Fits where
  plain index := by
    cases index with
    | const n => exact plain_tagged _ (.int n)
    | dynamic v => exact plain_tagged _ (ValueId.codec.plain v)
  read {index} h := by
    cases index with
    | const n => exact read_tagged (codec_int64.read h) fun _ => rfl
    | dynamic v => exact read_tagged (ValueId.codec.read h) fun _ => rfl
  fits {j index} h := by
    obtain ⟨⟨name, data⟩, -, h⟩ := part_iff.1 h
    split at h
    · exact codec_int64.fits_of_bind h fun _ h => h
    · exact ValueId.codec.fits_of_bind h fun _ h => h
    · cases h

end GepIndex

namespace Gep

structure Fits (g : Gep) : Prop where
  source : g.source.Fits
  base : g.base.Fits
  indices : ∀ index ∈ g.indices, index.Fits

theorem codec : Codec toJson ofJson? Fits where
  plain g := plain_record
    ⟨TypeId.codec.plain g.source, ValueId.codec.plain g.base, GepIndex.codec.list.plain g.indices⟩
  read h := read_record (by decide) rfl (read_part (TypeId.codec.read h.source)
    (read_part (ValueId.codec.read h.base) (read_part (GepIndex.codec.list.read h.indices) rfl)))
  fits {j g} h := by
    obtain ⟨fields, -, h⟩ := part_iff.1 h
    split at h
    · simp only [part_iff] at h
      obtain ⟨_, hsource, _, hbase, _, hindices, ⟨⟩⟩ := h
      exact ⟨TypeId.codec.fits hsource, ValueId.codec.fits hbase, GepIndex.codec.list.fits hindices⟩
    · cases h

end Gep

namespace SourceLoc

structure Fits (loc : SourceLoc) : Prop where
  line : loc.line < 2 ^ 32
  col : loc.col < 2 ^ 32

theorem codec : Codec toJson ofJson? Fits where
  plain loc := plain_record ⟨plain_text loc.file, plain_nat loc.line, plain_nat loc.col⟩
  read h := read_record (by decide) rfl (read_part rfl
    (read_part (codec_nat32.read h.line) (read_part (codec_nat32.read h.col) rfl)))
  fits {j loc} h := by
    obtain ⟨fields, -, h⟩ := part_iff.1 h
    split at h
    · simp only [part_iff] at h
      obtain ⟨_, _, _, hline, _, hcol, ⟨⟩⟩ := h
      exact ⟨codec_nat32.fits hline, codec_nat32.fits hcol⟩
    · cases h

end SourceLoc

namespace Call

structure Fits (c : Call) : Prop where
  callee : c.callee.Fits
  args : ∀ v ∈ c.args, v.Fits
  type : c.type.Fits

theorem codec : Codec toJson ofJson? Fits where
  plain c := plain_record ⟨ValueId.codec.plain c.callee, ValueId.codec.list.plain c.args,
    TypeId.codec.plain c.type, .bool c.sret⟩
  read h := read_record (by decide) rfl (read_part (ValueId.codec.read h.callee)
    (read_part (ValueId.codec.list.read h.args) (read_part (TypeId.codec.read h.type) rfl)))
  fits {j c} h := by
    obtain ⟨fields, -, h⟩ := part_iff.1 h
    split at h
    · simp only [part_iff] at h
      obtain ⟨_, hcallee, _, hargs, _, htype, _, _, ⟨⟩⟩ := h
      exact ⟨ValueId.codec.fits hcallee, ValueId.codec.list.fits hargs, TypeId.codec.fits htype⟩
    · cases h

end Call

theorem codec_cast : Codec (fun c => castJson c.1 c.2) castOfJson? (·.2.Fits) where
  plain c := plain_record ⟨CastOp.codec.plain c.1, ValueId.codec.plain c.2⟩
  read h := read_record (by decide) rfl
    (read_part (CastOp.codec.read trivial) (read_part (ValueId.codec.read h) rfl))
  fits {j c} h := by
    obtain ⟨fields, -, h⟩ := part_iff.1 h
    split at h
    · simp only [part_iff] at h
      obtain ⟨_, _, _, hv, ⟨⟩⟩ := h
      exact ValueId.codec.fits hv
    · cases h

namespace Opcode

def Fits : Opcode → Prop
  | alloca t => t.Fits
  | load v | cast _ v | unary v => v.Fits
  | store v w | binary v w => v.Fits ∧ w.Fits
  | gep g => g.Fits
  | phi vs => ∀ v ∈ vs, v.Fits
  | select u v w => u.Fits ∧ v.Fits ∧ w.Fits
  | call c => c.Fits
  | ret v => ∀ w ∈ v, w.Fits
  | branch v bs => (∀ w ∈ v, w.Fits) ∧ ∀ b ∈ bs, b.Fits
  | unreachable => True

theorem codec_pair {first second : String} (hne : first ≠ second) :
    Codec (fun c : ValueId × ValueId => .record [(first, c.1.toJson), (second, c.2.toJson)])
      (pair? first second) fun c => c.1.Fits ∧ c.2.Fits where
  plain c := plain_record ⟨ValueId.codec.plain c.1, ValueId.codec.plain c.2⟩
  read h := read_record (by simpa using hne) rfl
    (read_part (ValueId.codec.read h.1) (read_part (ValueId.codec.read h.2) rfl))
  fits {j c} h := by
    obtain ⟨fields, -, h⟩ := part_iff.1 h
    split at h
    · simp only [part_iff] at h
      obtain ⟨_, hv, _, hw, ⟨⟩⟩ := h
      exact ⟨ValueId.codec.fits hv, ValueId.codec.fits hw⟩
    · cases h

theorem fits_of_select? {j : Json} {op : Opcode} (h : select? j = some op) : op.Fits := by
  obtain ⟨fields, -, h⟩ := part_iff.1 h
  split at h
  · simp only [part_iff] at h
    obtain ⟨_, hu, _, hv, _, hw, ⟨⟩⟩ := h
    exact ⟨ValueId.codec.fits hu, ValueId.codec.fits hv, ValueId.codec.fits hw⟩
  · cases h

theorem fits_of_ret? {j : Json} {op : Opcode} (h : ret? j = some op) : op.Fits := by
  obtain ⟨fields, -, h⟩ := part_iff.1 h
  split at h
  · simp only [part_iff] at h
    obtain ⟨_, hv, ⟨⟩⟩ := h
    exact ValueId.codec.fits_optional hv
  · cases h

theorem fits_of_branch? {j : Json} {op : Opcode} (h : branch? j = some op) : op.Fits := by
  obtain ⟨fields, -, h⟩ := part_iff.1 h
  split at h
  · simp only [part_iff] at h
    obtain ⟨_, hv, _, hbs, ⟨⟩⟩ := h
    exact ⟨ValueId.codec.fits_optional hv, BlockId.codec.list.fits hbs⟩
  · cases h

theorem codec : Codec toJson ofJson? Fits where
  plain op := by
    cases op with
    | alloca t => exact plain_tagged _ (plain_record (TypeId.codec.plain t))
    | load ptr => exact plain_tagged _ (plain_record (ValueId.codec.plain ptr))
    | store value ptr =>
      exact plain_tagged _ (plain_record ⟨ValueId.codec.plain value, ValueId.codec.plain ptr⟩)
    | gep g => exact plain_tagged _ (Gep.codec.plain g)
    | cast op operand => exact plain_tagged _ (codec_cast.plain (op, operand))
    | phi incoming => exact plain_tagged _ (plain_record (ValueId.codec.list.plain incoming))
    | select condition ifTrue ifFalse =>
      exact plain_tagged _ (plain_record ⟨ValueId.codec.plain condition, ValueId.codec.plain ifTrue,
        ValueId.codec.plain ifFalse⟩)
    | call c => exact plain_tagged _ (Call.codec.plain c)
    | unary operand => exact plain_tagged _ (plain_record (ValueId.codec.plain operand))
    | binary lhs rhs =>
      exact plain_tagged _ (plain_record ⟨ValueId.codec.plain lhs, ValueId.codec.plain rhs⟩)
    | ret value => exact plain_tagged _ (plain_record (plain_ofOption ValueId.codec.plain value))
    | branch condition targets =>
      exact plain_tagged _ (plain_record
        ⟨plain_ofOption ValueId.codec.plain condition, BlockId.codec.list.plain targets⟩)
    | unreachable => exact plain_text _
  read {op} h := by
    cases op with
    | alloca t =>
      exact read_tagged ((Ty.codec_single TypeId.codec "allocated").read h) fun _ => rfl
    | load ptr => exact read_tagged ((Ty.codec_single ValueId.codec "ptr").read h) fun _ => rfl
    | store value ptr =>
      exact read_tagged_pair ((codec_pair (by decide)).read (a := (value, ptr)) h) fun _ => rfl
    | gep g => exact read_tagged (Gep.codec.read h) fun _ => rfl
    | cast op operand =>
      exact read_tagged_pair (codec_cast.read (a := (op, operand)) h) fun _ => rfl
    | phi incoming =>
      exact read_tagged ((Ty.codec_single ValueId.codec.list "incoming").read h) fun _ => rfl
    | select condition ifTrue ifFalse =>
      exact read_part rfl (read_record (by decide) rfl (read_part (ValueId.codec.read h.1)
        (read_part (ValueId.codec.read h.2.1) (read_part (ValueId.codec.read h.2.2) rfl))))
    | call c => exact read_tagged (Call.codec.read h) fun _ => rfl
    | unary operand =>
      exact read_tagged ((Ty.codec_single ValueId.codec "operand").read h) fun _ => rfl
    | binary lhs rhs =>
      exact read_tagged_pair ((codec_pair (by decide)).read (a := (lhs, rhs)) h) fun _ => rfl
    | ret value =>
      exact read_part rfl (read_record (by decide) rfl
        (read_part (ValueId.codec.read_optional nofun h) rfl))
    | branch condition targets =>
      exact read_part rfl (read_record (by decide) rfl
        (read_part (ValueId.codec.read_optional nofun h.1)
          (read_part (BlockId.codec.list.read h.2) rfl)))
    | unreachable => rfl
  fits {j op} h := by
    obtain ⟨⟨name, data⟩, -, h⟩ := part_iff.1 h
    split at h
    · exact (Ty.codec_single TypeId.codec "allocated").fits_of_bind h fun _ h => h
    · exact (Ty.codec_single ValueId.codec "ptr").fits_of_bind h fun _ h => h
    · exact (codec_pair (by decide)).fits_of_bind h fun _ h => h
    · exact Gep.codec.fits_of_bind h fun _ h => h
    · exact codec_cast.fits_of_bind h fun _ h => h
    · exact (Ty.codec_single ValueId.codec.list "incoming").fits_of_bind h fun _ h => h
    · exact fits_of_select? h
    · exact Call.codec.fits_of_bind h fun _ h => h
    · exact (Ty.codec_single ValueId.codec "operand").fits_of_bind h fun _ h => h
    · exact (codec_pair (by decide)).fits_of_bind h fun _ h => h
    · exact fits_of_ret? h
    · exact fits_of_branch? h
    · cases h
      trivial
    · cases h
      trivial
    · cases h

end Opcode

namespace Instr

structure Fits (i : Instr) : Prop where
  function : i.function.Fits
  block : i.block.Fits
  opcode : i.opcode.Fits
  loc : ∀ loc ∈ i.loc, loc.Fits

theorem codec : Codec toJson ofJson? Fits where
  plain i := plain_record ⟨FunctionId.codec.plain i.function, BlockId.codec.plain i.block,
    Opcode.codec.plain i.opcode, plain_ofOption SourceLoc.codec.plain i.loc⟩
  read h := read_record (by decide) rfl (read_part (FunctionId.codec.read h.function)
    (read_part (BlockId.codec.read h.block) (read_part (Opcode.codec.read h.opcode)
      (read_part (SourceLoc.codec.read_optional nofun h.loc) rfl))))
  fits {j i} h := by
    obtain ⟨fields, -, h⟩ := part_iff.1 h
    split at h
    · simp only [part_iff] at h
      obtain ⟨_, hfunction, _, hblock, _, hopcode, _, hloc, ⟨⟩⟩ := h
      exact ⟨FunctionId.codec.fits hfunction, BlockId.codec.fits hblock, Opcode.codec.fits hopcode,
        SourceLoc.codec.fits_optional hloc⟩
    · cases h

end Instr

namespace Const

def Fits : Const → Prop
  | null | undef => True
  | int n => -2 ^ 63 ≤ n ∧ n < 2 ^ 63
  | aggregate vs => ∀ v ∈ vs, v.Fits
  | cast _ v => v.Fits
  | gep g => g.Fits

theorem fits_of_expr? {j : Json} {c : Const} (h : expr? j = some c) : c.Fits := by
  obtain ⟨⟨name, data⟩, -, h⟩ := part_iff.1 h
  split at h
  · exact codec_cast.fits_of_bind h fun _ h => h
  · exact Gep.codec.fits_of_bind h fun _ h => h
  · cases h

theorem codec : Codec toJson ofJson? Fits where
  plain c := by
    cases c with
    | null => exact plain_text _
    | undef => exact plain_text _
    | int n => exact plain_tagged _ (.int n)
    | aggregate elements => exact plain_tagged _ (ValueId.codec.list.plain elements)
    | cast op operand => exact plain_tagged _ (plain_tagged _ (codec_cast.plain (op, operand)))
    | gep g => exact plain_tagged _ (plain_tagged _ (Gep.codec.plain g))
  read {c} h := by
    cases c with
    | null => rfl
    | undef => rfl
    | int n => exact read_tagged (codec_int64.read h) fun _ => rfl
    | aggregate elements => exact read_tagged (ValueId.codec.list.read h) fun _ => rfl
    | cast op operand =>
      exact read_part rfl (read_tagged_pair (codec_cast.read (a := (op, operand)) h) fun _ => rfl)
    | gep g => exact read_part rfl (read_tagged (Gep.codec.read h) fun _ => rfl)
  fits {j c} h := by
    obtain ⟨⟨name, data⟩, -, h⟩ := part_iff.1 h
    split at h
    · cases h
      trivial
    · cases h
      trivial
    · cases h
      trivial
    · cases h
      trivial
    · exact codec_int64.fits_of_bind h fun _ h => h
    · exact ValueId.codec.list.fits_of_bind h fun _ h => h
    · exact fits_of_expr? h
    · cases h

end Const

/-! ## Values, functions, variables and modules -/

namespace ValueKind

def Fits : ValueKind → Prop
  | argument f index => f.Fits ∧ index < 2 ^ 32
  | function f => f.Fits
  | global g => g.Fits
  | const c => c.Fits
  | instr i => i.Fits

theorem fits_of_argument? {j : Json} {k : ValueKind} (h : argument? j = some k) : k.Fits := by
  obtain ⟨fields, -, h⟩ := part_iff.1 h
  split at h
  · simp only [part_iff] at h
    obtain ⟨_, hf, _, hn, ⟨⟩⟩ := h
    exact ⟨FunctionId.codec.fits hf, codec_nat32.fits hn⟩
  · cases h

theorem codec : Codec toJson ofJson? Fits where
  plain k := by
    cases k with
    | argument f index =>
      exact plain_tagged _ (plain_record ⟨FunctionId.codec.plain f, plain_nat index⟩)
    | function f => exact plain_tagged _ (FunctionId.codec.plain f)
    | global g => exact plain_tagged _ (GlobalId.codec.plain g)
    | const c => exact plain_tagged _ (Const.codec.plain c)
    | instr i => exact plain_tagged _ (Instr.codec.plain i)
  read {k} h := by
    cases k with
    | argument f index =>
      exact read_part rfl (read_record (by decide) rfl (read_part (FunctionId.codec.read h.1)
        (read_part (codec_nat32.read h.2) rfl)))
    | function f => exact read_tagged (FunctionId.codec.read h) fun _ => rfl
    | global g => exact read_tagged (GlobalId.codec.read h) fun _ => rfl
    | const c => exact read_tagged (Const.codec.read h) fun _ => rfl
    | instr i => exact read_tagged (Instr.codec.read h) fun _ => rfl
  fits {j k} h := by
    obtain ⟨⟨name, data⟩, -, h⟩ := part_iff.1 h
    split at h
    · exact fits_of_argument? h
    · exact FunctionId.codec.fits_of_bind h fun _ h => h
    · exact GlobalId.codec.fits_of_bind h fun _ h => h
    · exact Const.codec.fits_of_bind h fun _ h => h
    · exact Instr.codec.fits_of_bind h fun _ h => h
    · cases h

end ValueKind

namespace Value

structure Fits (v : Value) : Prop where
  type : v.type.Fits
  kind : v.kind.Fits

theorem codec : Codec toJson ofJson? Fits where
  plain v := plain_record
    ⟨TypeId.codec.plain v.type, plain_ofOption plain_text v.name, ValueKind.codec.plain v.kind⟩
  read h := read_record (by decide) rfl (read_part (TypeId.codec.read h.type)
    (read_part (codec_string.read_optional nofun fun _ _ => trivial)
      (read_part (ValueKind.codec.read h.kind) rfl)))
  fits {j v} h := by
    obtain ⟨fields, -, h⟩ := part_iff.1 h
    split at h
    · simp only [part_iff] at h
      obtain ⟨_, htype, _, _, _, hkind, ⟨⟩⟩ := h
      exact ⟨TypeId.codec.fits htype, ValueKind.codec.fits hkind⟩
    · cases h

end Value

theorem Linkage.codec : Codec toJson ofJson? fun _ => True where
  plain l := plain_text l.text
  read {l} _ := by cases l <;> rfl
  fits _ := trivial

namespace Block

structure Fits (b : Block) : Prop where
  id : b.id.Fits
  instructions : ∀ v ∈ b.instructions, v.Fits

theorem codec : Codec toJson ofJson? Fits where
  plain b := plain_record ⟨BlockId.codec.plain b.id, ValueId.codec.list.plain b.instructions⟩
  read h := read_record (by decide) rfl (read_part (BlockId.codec.read h.id)
    (read_part (ValueId.codec.list.read h.instructions) rfl))
  fits {j b} h := by
    obtain ⟨fields, -, h⟩ := part_iff.1 h
    split at h
    · simp only [part_iff] at h
      obtain ⟨_, hid, _, hinstructions, ⟨⟩⟩ := h
      exact ⟨BlockId.codec.fits hid, ValueId.codec.list.fits hinstructions⟩
    · cases h

end Block

namespace Function

structure Fits (f : Function) : Prop where
  type : f.type.Fits
  module : f.module.Fits
  params : ∀ v ∈ f.params, v.Fits
  blocks : ∀ b ∈ f.blocks, b.Fits
  value : f.value.Fits

theorem codec : Codec toJson ofJson? Fits where
  plain f := plain_record ⟨plain_text f.name, TypeId.codec.plain f.type,
    ModuleId.codec.plain f.module, Linkage.codec.plain f.linkage, ValueId.codec.list.plain f.params,
    Block.codec.list.plain f.blocks, ValueId.codec.plain f.value, .bool f.addressTaken⟩
  read h := read_record (by decide) rfl (read_part rfl (read_part (TypeId.codec.read h.type)
    (read_part (ModuleId.codec.read h.module) (read_part (Linkage.codec.read trivial)
      (read_part (ValueId.codec.list.read h.params) (read_part (Block.codec.list.read h.blocks)
        (read_part (ValueId.codec.read h.value) rfl)))))))
  fits {j f} h := by
    obtain ⟨fields, -, h⟩ := part_iff.1 h
    split at h
    · simp only [part_iff] at h
      obtain ⟨_, _, _, htype, _, hmodule, _, _, _, hparams, _, hblocks, _, hvalue, _, _, ⟨⟩⟩ := h
      exact ⟨TypeId.codec.fits htype, ModuleId.codec.fits hmodule, ValueId.codec.list.fits hparams,
        Block.codec.list.fits hblocks, ValueId.codec.fits hvalue⟩
    · cases h

end Function

namespace Global

structure Fits (g : Global) : Prop where
  module : g.module.Fits
  type : g.type.Fits
  value : g.value.Fits
  init : ∀ v ∈ g.init, v.Fits

theorem codec : Codec toJson ofJson? Fits where
  plain g := plain_record ⟨plain_text g.name, ModuleId.codec.plain g.module,
    TypeId.codec.plain g.type, ValueId.codec.plain g.value,
    plain_ofOption ValueId.codec.plain g.init, Linkage.codec.plain g.linkage, .bool g.isConstant⟩
  read h := read_record (by decide) rfl (read_part rfl (read_part (ModuleId.codec.read h.module)
    (read_part (TypeId.codec.read h.type) (read_part (ValueId.codec.read h.value)
      (read_part (ValueId.codec.read_optional nofun h.init)
        (read_part (Linkage.codec.read trivial) rfl))))))
  fits {j g} h := by
    obtain ⟨fields, -, h⟩ := part_iff.1 h
    split at h
    · simp only [part_iff] at h
      obtain ⟨_, _, _, hmodule, _, htype, _, hvalue, _, hinit, _, _, _, _, ⟨⟩⟩ := h
      exact ⟨ModuleId.codec.fits hmodule, TypeId.codec.fits htype, ValueId.codec.fits hvalue,
        ValueId.codec.fits_optional hinit⟩
    · cases h

end Global

namespace Module

structure Fits (m : Module) : Prop where
  id : m.id.Fits
  functions : ∀ f ∈ m.functions, f.Fits
  globals : ∀ g ∈ m.globals, g.Fits
  structs : ∀ t ∈ m.structs, t.Fits

theorem codec : Codec toJson ofJson? Fits where
  plain m := plain_record ⟨ModuleId.codec.plain m.id, plain_text m.name,
    FunctionId.codec.list.plain m.functions, GlobalId.codec.list.plain m.globals,
    TypeId.codec.list.plain m.structs⟩
  read h := read_record (by decide) rfl (read_part (ModuleId.codec.read h.id) (read_part rfl
    (read_part (FunctionId.codec.list.read h.functions)
      (read_part (GlobalId.codec.list.read h.globals)
        (read_part (TypeId.codec.list.read h.structs) rfl)))))
  fits {j m} h := by
    obtain ⟨fields, -, h⟩ := part_iff.1 h
    split at h
    · simp only [part_iff] at h
      obtain ⟨_, hid, _, _, _, hfunctions, _, hglobals, _, hstructs, ⟨⟩⟩ := h
      exact ⟨ModuleId.codec.fits hid, FunctionId.codec.list.fits hfunctions,
        GlobalId.codec.list.fits hglobals, TypeId.codec.list.fits hstructs⟩
    · cases h

end Module

/-! ## Programs -/

namespace Program

/-- All numbers of a program have the widths of documents. -/
structure Fits (p : Program) : Prop where
  types : ∀ ty ∈ p.types.types.toList, ty.Fits
  values : ∀ v ∈ p.values.toList, v.Fits
  functions : ∀ f ∈ p.functions.toList, f.Fits
  globals : ∀ g ∈ p.globals.toList, g.Fits
  modules : ∀ m ∈ p.modules.toList, m.Fits

theorem plain_toJson (p : Program) : p.toJson.Plain :=
  plain_record ⟨TypeTable.codec.plain p.types, Value.codec.list.plain p.values.toList,
    Function.codec.list.plain p.functions.toList, Global.codec.list.plain p.globals.toList,
    Module.codec.list.plain p.modules.toList⟩

theorem decode?_toJson {p : Program} (h : p.Fits) :
    decode? p.toJson = some { p with users := #[] } :=
  read_record (by decide) rfl (read_part (TypeTable.codec.read h.types)
    (read_part (Value.codec.list.read h.values) (read_part (Function.codec.list.read h.functions)
      (read_part (Global.codec.list.read h.globals)
        (read_part (Module.codec.list.read h.modules) rfl)))))

theorem fits_of_decode? {j : Json} {p : Program} (h : decode? j = some p) : p.Fits := by
  obtain ⟨fields, -, h⟩ := part_iff.1 h
  split at h
  · simp only [part_iff] at h
    obtain ⟨_, htypes, _, hvalues, _, hfunctions, _, hglobals, _, hmodules, ⟨⟩⟩ := h
    exact ⟨TypeTable.codec.fits htypes, Value.codec.list.fits hvalues,
      Function.codec.list.fits hfunctions, Global.codec.list.fits hglobals,
      Module.codec.list.fits hmodules⟩
  · cases h

end Program

end CallTargets
