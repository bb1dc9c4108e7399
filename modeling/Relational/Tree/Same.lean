import Relational.Tree.Basic
import Relational.Value.Order

/-!
# Sameness of trees

Two trees are the same if they have the same shape and the same parts. Values are compared by `Value.same`,
under which decimals of one value are the same and a double that is not a number is not the same as
itself; so this is not equality of trees, but it is what decides whether two expressions share a
column.
-/

namespace Relational

mutual

def Expr.same (e other : Expr) : Bool :=
  match e with
  | .param n => match other with | .param n' => n == n' | _ => false
  | .variable n v t => match other with | .variable n' v' t' => n == n' && v.same v' && t == t' | _ => false
  | .constant v t => match other with | .constant v' t' => v.same v' && t == t' | _ => false
  | .binary op l r =>
    match other with
    | .binary op' l' r' => op == op' && l.same l' && r.same r'
    | _ => false
  | .unary op x => match other with | .unary op' x' => op == op' && x.same x' | _ => false
  | .member x n => match other with | .member x' n' => x.same x' && n == n' | _ => false
  | .call m x args =>
    match other with
    | .call m' x' args' => m == m' && x.same x' && sameAll args args'
    | _ => false
  | .conditional a b c =>
    match other with
    | .conditional a' b' c' => a.same a' && b.same b' && c.same c'
    | _ => false
  | .record r ms => match other with | .record r' ms' => r == r' && sameNamed ms ms' | _ => false
  | .convert x t => match other with | .convert x' t' => x.same x' && t == t' | _ => false
  | .query q => match other with | .query q' => q.same q' | _ => false
  | .column c => match other with | .column c' => c == c' | _ => false
  | .hostParameter v t => match other with | .hostParameter v' t' => v.same v' && t == t' | _ => false
  | .aggregate k x d t =>
    match other with
    | .aggregate k' x' d' t' => k == k' && sameOption x x' && d == d' && t == t'
    | _ => false
  | .subquery s => match other with | .subquery s' => s.same s' | _ => false
  | .function n args t =>
    match other with
    | .function n' args' t' => n == n' && sameAll args args' && t == t'
    | _ => false
  | .projection p => match other with | .projection p' => p.same p' | _ => false
  | .group k e => match other with | .group k' e' => k.same k' && e.same e' | _ => false
termination_by structural e

def sameAll : List Expr → List Expr → Bool
  | [], [] => true
  | e :: es, e' :: es' => e.same e' && sameAll es es'
  | _, _ => false
termination_by structural t => t

def sameOption : Option Expr → Option Expr → Bool
  | none, none => true
  | some e, some e' => e.same e'
  | _, _ => false
termination_by structural t => t

def sameNamed : List Named → List Named → Bool
  | [], [] => true
  | ⟨n, e⟩ :: ms, ⟨n', e'⟩ :: ms' => n == n' && e.same e' && sameNamed ms ms'
  | _, _ => false
termination_by structural t => t

def sameKeys : List OrderKey → List OrderKey → Bool
  | [], [] => true
  | ⟨e, d⟩ :: ks, ⟨e', d'⟩ :: ks' => e.same e' && d == d' && sameKeys ks ks'
  | _, _ => false
termination_by structural t => t

def Subquery.same : Subquery → Subquery → Bool
  | .scalar s t, .scalar s' t' => s.same s' && t == t'
  | .exists s, .exists s' => s.same s'
  | .inSelect e s, .inSelect e' s' => e.same e' && s.same s'
  | .inValues e vs, .inValues e' vs' => e.same e' && sameAll vs vs'
  | _, _ => false
termination_by structural t => t

def Source.same : Source → Source → Bool
  | .table k a e n, .table k' a' e' n' => k == k' && a == a' && e == e' && n == n'
  | .raw a s, .raw a' s' => a == a' && s == s'
  | .select s, .select s' => s.same s'
  | .join k l r c, .join k' l' r' c' => k == k' && l.same l' && r.same r' && sameOption c c'
  | _, _ => false
termination_by structural t => t

def sameSource : Option Source → Option Source → Bool
  | none, none => true
  | some s, some s' => s.same s'
  | _, _ => false
termination_by structural t => t

def Select.same : Select → Select → Bool
  | ⟨a, cs, src, w, g, h, o, off, lim, d⟩, ⟨a', cs', src', w', g', h', o', off', lim', d'⟩ =>
    a == a' && sameNamed cs cs' && sameSource src src' && sameOption w w' && sameAll g g' &&
      sameOption h h' && sameKeys o o' && sameOption off off' && sameOption lim lim' && d == d'
termination_by structural t => t

def Projection.same : Projection → Projection → Bool
  | ⟨s, e, a⟩, ⟨s', e', a'⟩ => s.same s' && e.same e' && a == a'
termination_by structural t => t

def Lambda.same : Lambda → Lambda → Bool
  | ⟨ps, b⟩, ⟨ps', b'⟩ => ps == ps' && b.same b'
termination_by structural t => t

def sameLambda : Option Lambda → Option Lambda → Bool
  | none, none => true
  | some l, some l' => l.same l'
  | _, _ => false
termination_by structural t => t

def Query.same (q other : Query) : Bool :=
  match q with
  | .table e => match other with | .table e' => e == e' | _ => false
  | .view e => match other with | .view e' => e == e' | _ => false
  | .raw e s => match other with | .raw e' s' => e == e' && s == s' | _ => false
  | .memory vs t => match other with | .memory vs' t' => Value.sameItems vs vs' && t == t' | _ => false
  | .of e => match other with | .of e' => e.same e' | _ => false
  | .filter q l => match other with | .filter q' l' => q.same q' && l.same l' | _ => false
  | .project q l => match other with | .project q' l' => q.same q' && l.same l' | _ => false
  | .selectMany q l r =>
    match other with
    | .selectMany q' l' r' => q.same q' && l.same l' && sameLambda r r'
    | _ => false
  | .join o i ok ik r =>
    match other with
    | .join o' i' ok' ik' r' => o.same o' && i.same i' && ok.same ok' && ik.same ik' && r.same r'
    | _ => false
  | .groupJoin o i ok ik r =>
    match other with
    | .groupJoin o' i' ok' ik' r' => o.same o' && i.same i' && ok.same ok' && ik.same ik' && r.same r'
    | _ => false
  | .orderBy q l d => match other with | .orderBy q' l' d' => q.same q' && l.same l' && d == d' | _ => false
  | .thenBy q l d => match other with | .thenBy q' l' d' => q.same q' && l.same l' && d == d' | _ => false
  | .groupBy q k e r =>
    match other with
    | .groupBy q' k' e' r' => q.same q' && k.same k' && sameLambda e e' && sameLambda r r'
    | _ => false
  | .distinct q => match other with | .distinct q' => q.same q' | _ => false
  | .skip q e => match other with | .skip q' e' => q.same q' && e.same e' | _ => false
  | .take q e => match other with | .take q' e' => q.same q' && e.same e' | _ => false
  | .cast q t => match other with | .cast q' t' => q.same q' && t == t' | _ => false
  | .defaultIfEmpty q => match other with | .defaultIfEmpty q' => q.same q' | _ => false
  | .aggregate q k l =>
    match other with
    | .aggregate q' k' l' => q.same q' && k == k' && sameLambda l l'
    | _ => false
  | .elementAt q e d =>
    match other with
    | .elementAt q' e' d' => q.same q' && e.same e' && d == d'
    | _ => false
  | .first q l d =>
    match other with
    | .first q' l' d' => q.same q' && sameLambda l l' && d == d'
    | _ => false
  | .single q l d =>
    match other with
    | .single q' l' d' => q.same q' && sameLambda l l' && d == d'
    | _ => false
  | .any q l => match other with | .any q' l' => q.same q' && sameLambda l l' | _ => false
  | .all q l => match other with | .all q' l' => q.same q' && l.same l' | _ => false
  | .contains q e => match other with | .contains q' e' => q.same q' && e.same e' | _ => false
  | .reverse q => match other with | .reverse q' => q.same q' | _ => false
  | .last q l d => match other with | .last q' l' d' => q.same q' && sameLambda l l' && d == d' | _ => false
  | .union l r => match other with | .union l' r' => l.same l' && r.same r' | _ => false
  | .concat l r => match other with | .concat l' r' => l.same l' && r.same r' | _ => false
  | .window q f => match other with | .window q' f' => q.same q' && f == f' | _ => false
termination_by structural q

end

end Relational
