import SweGateway.Lib.Places
import SweGateway.Saf.Config

/-!
# Expanding a configuration in place (`saf/config.rs`)

`expand_env` replaces the sensitive fields of a configuration in place and stops at the first one
that it cannot expand.  `GatewayConfig.expandEnv` is what it makes of the configuration where it
succeeds; `expandEnvInPlace` is the same function together with what it leaves where it fails.
-/

namespace SweGateway.GatewayConfig

/-! ### The sensitive fields as places -/

def connectionStringPlace : Place GatewayConfig (Option String) where
  get c := c.database.connectionString
  set x c := { c with database.connectionString := x }
  get_set _ _ := rfl

def passwordPlace : Place GatewayConfig (Option String) where
  get c := c.database.password
  set x c := { c with database.password := x }
  get_set _ _ := rfl

def accessKeyPlace : Place GatewayConfig (Option String) where
  get c := c.file.accessKey
  set x c := { c with file.accessKey := x }
  get_set _ _ := rfl

def secretKeyPlace : Place GatewayConfig (Option String) where
  get c := c.file.secretKey
  set x c := { c with file.secretKey := x }
  get_set _ _ := rfl

def baseUrlPlace : Place GatewayConfig (Option String) where
  get c := c.http.baseUrl
  set x c := { c with http.baseUrl := x }
  get_set _ _ := rfl

def apiKeyPlace : Place GatewayConfig (Option String) where
  get c := c.payment.apiKey
  set x c := { c with payment.apiKey := x }
  get_set _ _ := rfl

def paymentSecretKeyPlace : Place GatewayConfig (Option String) where
  get c := c.payment.secretKey
  set x c := { c with payment.secretKey := x }
  get_set _ _ := rfl

def webhookSecretPlace : Place GatewayConfig (Option String) where
  get c := c.payment.webhookSecret
  set x c := { c with payment.webhookSecret := x }
  get_set _ _ := rfl

/-- `expand_env`, with the configuration that it leaves. -/
def expandEnvInPlace (env : Env) : Eff GatewayConfig ConfigError Unit := do
  -- database
  connectionStringPlace.rewrite (expandOpt env)
  passwordPlace.rewrite (expandOpt env)
  -- file
  accessKeyPlace.rewrite (expandOpt env)
  secretKeyPlace.rewrite (expandOpt env)
  -- http
  baseUrlPlace.rewrite (expandOpt env)
  -- payment
  apiKeyPlace.rewrite (expandOpt env)
  paymentSecretKeyPlace.rewrite (expandOpt env)
  webhookSecretPlace.rewrite (expandOpt env)

end SweGateway.GatewayConfig
