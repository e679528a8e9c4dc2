import Doxa.Circuit.Targets

/-!
# Account gadgets

The constraints the transaction circuits share: the default state of a fresh account, what
a transaction may change, the update of one leaf of the account's asset tree, and the
membership of the approval key in the main pool.
-/

namespace Doxa.Circuit

variable (perm : State → State)

/-- `conditional_assert_eq` on every element of a key. -/
def CondKeyEq (condition : F) (x y : PubkeyTarget) : Prop := ∀ i, CondEq condition (x i) (y i)

/-- `assert_fresh_account`. -/
structure AssertFreshAccount (acc : AccountTarget) (condition : F) : Prop where
  ast_root : CondHashEq condition acc.accAstRoot AST_DEFAULT_ROOT
  nonce : CondEq condition acc.nonce 0
  spend_auth : CondKeyEq condition acc.spendAuth DEFAULT_SPEND_AUTH_PK
  config : CondEq condition acc.consumeAuth.config 0
  consume_auth : CondKeyEq condition acc.consumeAuth.pk DEFAULT_ACC_COMM_CONSUME_PK_PLACEHOLDER

/-- `assert_account_invariants_simple`. -/
structure AssertAccountInvariantsSimple (accin accout : AccountTarget) : Prop where
  private_identifier : accin.privateIdentifier = accout.privateIdentifier
  subpool_id : accin.subpoolId = accout.subpoolId
  nonce : accout.nonce = accin.nonce + 1
  spend_auth : accin.spendAuth = accout.spendAuth
  consume_pk : accin.consumeAuth.pk = accout.consumeAuth.pk
  consume_config : accin.consumeAuth.config = accout.consumeAuth.config

/-- `assert_account_invariants`: the asset root is frozen unless `is_priv_tx`, the keys are
frozen when `is_priv_tx`. -/
structure AssertAccountInvariants (accin accout : AccountTarget) (isPrivTx : F) : Prop where
  private_identifier : accin.privateIdentifier = accout.privateIdentifier
  subpool_id : accin.subpoolId = accout.subpoolId
  nonce : accout.nonce = accin.nonce + 1
  ast_root : CondHashEq (not isPrivTx) accout.accAstRoot accin.accAstRoot
  spend_auth : CondKeyEq isPrivTx accout.spendAuth accin.spendAuth
  consume_pk : CondKeyEq isPrivTx accout.consumeAuth.pk accin.consumeAuth.pk
  consume_config : CondEq isPrivTx accout.consumeAuth.config accin.consumeAuth.config

/-- The leaf of an asset, or the default leaf when the asset is not in the tree. -/
def existsOrDefault (assetId : F) (amt : U256Target) (selector : F) : HashOut :=
  ifElseHash selector (astLeaf perm assetId amt) AST_DEFAULT_LEAF

/-- `assert_asset_amt_or_default_in_ast`. -/
structure AssertAssetAmtOrDefaultInAst (t : MerkleRootTarget ACC_AST_DEPTH) (assetId : F)
    (amt : U256Target) (accAstRoot : HashOut) (selector : F) : Prop where
  path : t.Satisfied
  root : t.root perm (existsOrDefault perm assetId amt selector) = accAstRoot
  absent : ∀ i, CondEq (not selector) (amt i) 0

/-- `assert_ast_update`: the two trees differ in one leaf. The siblings and bits of the
second path are connected to those of the first, so both are one path here. -/
structure AssertAstUpdate (t : MerkleRootTarget ACC_AST_DEPTH) (assetId : F)
    (accinAmt accoutAmt : U256Target) (accinAstRoot accoutAstRoot : HashOut)
    (assetExistsInAccin assetExistsInAccout : F) : Prop where
  accin : AssertAssetAmtOrDefaultInAst perm t assetId accinAmt accinAstRoot assetExistsInAccin
  accout : AssertAssetAmtOrDefaultInAst perm t assetId accoutAmt accoutAstRoot assetExistsInAccout

/-- The leaf of a subpool in the main pool tree. -/
def mainPoolLeaf (subpoolId : F) (approvalKey : PubkeyTarget) : HashOut :=
  hashNoPad perm ([subpoolId, 0, 0, 0] ++ List.ofFn (hashNoPad perm (List.ofFn approvalKey)))

/-- `assert_subpool_full_proof`. -/
def AssertSubpoolFullProof (t : MerkleRootTarget MAIN_POOL_CONFIG_DEPTH) (subpoolId : F)
    (approvalKey : PubkeyTarget) (mainpoolConfigRoot : HashOut) (notFakeTx : F) : Prop :=
  t.ConditionalVerify perm (mainPoolLeaf perm subpoolId approvalKey) mainpoolConfigRoot notFakeTx

end Doxa.Circuit
