import ShaderAnalysis.Tree.Stmt

/-!
Equality of source trees up to marks: two trees are alike when they differ in node numbers and
places only. Literals of floating point compare as numbers, so the two zeros are alike.
-/

namespace ShaderAnalysis

mutual
def Expr.alike : Expr → Expr → Bool
  | .ident _ n, .ident _ n' => n == n'
  | .int _ v, .int _ v' => v == v'
  | .uint _ v, .uint _ v' => v == v'
  | .float _ v, .float _ v' => v == v'
  | .bool _ v, .bool _ v' => v == v'
  | .unary _ o a, .unary _ o' a' => o == o' && a.alike a'
  | .binary _ o a b, .binary _ o' a' b' => o == o' && a.alike a' && b.alike b'
  | .assign _ o a b, .assign _ o' a' b' => o == o' && a.alike a' && b.alike b'
  | .cond _ a b c, .cond _ a' b' c' => a.alike a' && b.alike b' && c.alike c'
  | .index _ a b, .index _ a' b' => a.alike a' && b.alike b'
  | .field _ a n, .field _ a' n' => a.alike a' && n == n'
  | .method _ a n as, .method _ a' n' as' => a.alike a' && n == n' && Expr.alikeList as as'
  | .call _ n as, .call _ n' as' => n == n' && Expr.alikeList as as'
  | .construct _ t as, .construct _ t' as' => t.alike t' && Expr.alikeList as as'
  | .seq _ es, .seq _ es' => Expr.alikeList es es'
  | .aggregate _ es, .aggregate _ es' => Expr.alikeList es es'
  | _, _ => false

def Expr.alikeList : List Expr → List Expr → Bool
  | [], [] => true
  | e :: es, e' :: es' => e.alike e' && Expr.alikeList es es'
  | _, _ => false

def Dim.alike : Dim → Dim → Bool
  | .unsized, .unsized => true
  | .sized e, .sized e' => e.alike e'
  | _, _ => false

def Dim.alikeList : List Dim → List Dim → Bool
  | [], [] => true
  | d :: ds, d' :: ds' => d.alike d' && Dim.alikeList ds ds'
  | _, _ => false

/-- A missing dimension specifier differs from an empty one. -/
def Dim.alikeSpec : Option (List Dim) → Option (List Dim) → Bool
  | none, none => true
  | some ds, some ds' => Dim.alikeList ds ds'
  | _, _ => false

def TypeHead.alike : TypeHead → TypeHead → Bool
  | .named n, .named n' => n == n'
  | .struct s, .struct s' => s.alike s'
  | _, _ => false

def TypeSpec.alike : TypeSpec → TypeSpec → Bool
  | ⟨h, ds⟩, ⟨h', ds'⟩ => h.alike h' && Dim.alikeSpec ds ds'

def StructSpec.alike : StructSpec → StructSpec → Bool
  | ⟨_, n, ms⟩, ⟨_, n', ms'⟩ => n == n' && DeclList.alikeList ms ms'

def DeclList.alike : DeclList → DeclList → Bool
  | ⟨q, t, i, ds⟩, ⟨q', t', i', ds'⟩ =>
    q == q' && t.alike t' && i == i' && Declarator.alikeList ds ds'

def DeclList.alikeList : List DeclList → List DeclList → Bool
  | [], [] => true
  | d :: ds, d' :: ds' => d.alike d' && DeclList.alikeList ds ds'
  | _, _ => false

def Declarator.alike : Declarator → Declarator → Bool
  | ⟨_, n, ds, i⟩, ⟨_, n', ds', i'⟩ => n == n' && Dim.alikeSpec ds ds' && Expr.alikeOption i i'

def Declarator.alikeList : List Declarator → List Declarator → Bool
  | [], [] => true
  | d :: ds, d' :: ds' => d.alike d' && Declarator.alikeList ds ds'
  | _, _ => false

def Expr.alikeOption : Option Expr → Option Expr → Bool
  | none, none => true
  | some e, some e' => e.alike e'
  | _, _ => false
end

def BlockDecl.alike (b b' : BlockDecl) : Bool :=
  b.qualifiers == b'.qualifiers && b.name == b'.name && b.instanceName == b'.instanceName
    && Dim.alikeSpec b.dims b'.dims && DeclList.alikeList b.members b'.members

def Jump.alike : Jump → Jump → Bool
  | .continues, .continues => true
  | .breaks, .breaks => true
  | .discards, .discards => true
  | .returns e, .returns e' => Expr.alikeOption e e'
  | _, _ => false

def Label.alike : Label → Label → Bool
  | .value e, .value e' => e.alike e'
  | .fallback, .fallback => true
  | _, _ => false

def Label.alikeList : List Label → List Label → Bool
  | [], [] => true
  | l :: ls, l' :: ls' => l.alike l' && Label.alikeList ls ls'
  | _, _ => false

mutual
def Stmt.alike : Stmt → Stmt → Bool
  | .compound _ n ss, .compound _ n' ss' => n == n' && Stmt.alikeList ss ss'
  | .declare _ l, .declare _ l' => l.alike l'
  | .block _ b, .block _ b' => b.alike b'
  | .expr _ e, .expr _ e' => Expr.alikeOption e e'
  | .ifElse _ c t f, .ifElse _ c' t' f' => c.alike c' && t.alike t' && Stmt.alikeOption f f'
  | .switch _ c b, .switch _ c' b' => c.alike c' && b.alike b'
  | .loop _ k i c r b, .loop _ k' i' c' r' b' =>
    k == k' && Stmt.alikeOption i i' && Expr.alikeOption c c' && Expr.alikeOption r r'
      && b.alike b'
  | .jump _ j, .jump _ j' => j.alike j'
  | _, _ => false

def Stmt.alikeList : List Stmt → List Stmt → Bool
  | [], [] => true
  | s :: ss, s' :: ss' => s.alike s' && Stmt.alikeList ss ss'
  | _, _ => false

def Stmt.alikeOption : Option Stmt → Option Stmt → Bool
  | none, none => true
  | some s, some s' => s.alike s'
  | _, _ => false

def SwitchBody.alike : SwitchBody → SwitchBody → Bool
  | ⟨_, cs⟩, ⟨_, cs'⟩ => Case.alikeList cs cs'

def Case.alike : Case → Case → Bool
  | ⟨_, ls, ss⟩, ⟨_, ls', ss'⟩ => Label.alikeList ls ls' && Stmt.alikeList ss ss'

def Case.alikeList : List Case → List Case → Bool
  | [], [] => true
  | c :: cs, c' :: cs' => c.alike c' && Case.alikeList cs cs'
  | _, _ => false
end

def Parameter.alike (p p' : Parameter) : Bool :=
  p.qualifiers == p'.qualifiers && p.type.alike p'.type && p.name == p'.name
    && Dim.alikeSpec p.dims p'.dims && p.formal == p'.formal

def Parameter.alikeList : List Parameter → List Parameter → Bool
  | [], [] => true
  | p :: ps, p' :: ps' => p.alike p' && Parameter.alikeList ps ps'
  | _, _ => false

def Prototype.alike (p p' : Prototype) : Bool :=
  p.returnQualifiers == p'.returnQualifiers && p.returns.alike p'.returns && p.name == p'.name
    && Parameter.alikeList p.params p'.params

/-- Two declarations at the top of a unit are of one sort and alike in all but their marks. -/
def TopLevel.alike : TopLevel → TopLevel → Bool
  | .declaration s, .declaration s' => s.alike s'
  | .prototype p, .prototype p' => p.alike p'
  | .function f, .function f' => f.prototype.alike f'.prototype && f.body.alike f'.body
  | .layout l, .layout l' => l.mode == l'.mode
  | _, _ => false

/-- Two source units are alike when their declarations are, one by one. -/
def SourceUnit.alike : SourceUnit → SourceUnit → Bool
  | [], [] => true
  | d :: ds, d' :: ds' => d.alike d' && SourceUnit.alike ds ds'
  | _, _ => false

end ShaderAnalysis
