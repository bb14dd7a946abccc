/-!
The source text of the layer that every module is built with: it gives a translated model the
entry points that callers know.
-/

namespace CompiledModels.Glue

def fileName : String := "stanbind_glue.cpp"

def lines : List String := [
  "// C ABI over a translated Stan model.",
  "//",
  "// Compiled together with the translator's C++ output into one shared library.",
  "// Every entry point builds the model from the JSON data it is given, catches",
  "// all C++ exceptions and reports them through \x60err\x60. Buffers handed back to",
  "// the caller are malloc'd and must be released with stanbind_free.",
  "",
  "#include <stan/io/json/json_data.hpp>",
  "#include <stan/model/log_prob_grad.hpp>",
  "#include <stan/model/model_base.hpp>",
  "",
  "#include <boost/random/additive_combine.hpp>",
  "",
  "#include <cstdint>",
  "#include <cstdlib>",
  "#include <cstring>",
  "#include <memory>",
  "#include <sstream>",
  "#include <string>",
  "#include <vector>",
  "",
  "#include <Eigen/Dense>",
  "",
  "stan::model::model_base& new_model(stan::io::var_context& data_context, unsigned int seed,",
  "                                   std::ostream* msg_stream);",
  "",
  "#if defined(_WIN32)",
  "#define STANBIND_EXPORT extern \"C\" __declspec(dllexport)",
  "#else",
  "#define STANBIND_EXPORT extern \"C\" __attribute__((visibility(\"default\")))",
  "#endif",
  "",
  "namespace \x7b",
  "",
  "constexpr std::uint32_t kAbiVersion = 1;",
  "",
  "char* copy_string(const std::string& s) \x7b",
  "  char* out = static_cast<char*>(std::malloc(s.size() + 1));",
  "  if (out != nullptr) \x7b",
  "    std::memcpy(out, s.c_str(), s.size() + 1);",
  "  \x7d",
  "  return out;",
  "\x7d",
  "",
  "double* copy_vector(const Eigen::VectorXd& v, size_t* out_len) \x7b",
  "  double* out = static_cast<double*>(std::malloc(sizeof(double) * (v.size() > 0 ? v.size() : 1)));",
  "  if (out != nullptr) \x7b",
  "    for (Eigen::Index i = 0; i < v.size(); ++i) \x7b",
  "      out[i] = v[i];",
  "    \x7d",
  "  \x7d",
  "  *out_len = static_cast<size_t>(v.size());",
  "  return out;",
  "\x7d",
  "",
  "std::string json_escape(const std::string& s) \x7b",
  "  std::string out;",
  "  out.reserve(s.size() + 2);",
  "  for (char c : s) \x7b",
  "    switch (c) \x7b",
  "      case '\"': out += \"\\\\\\\"\"; break;",
  "      case '\\\\': out += \"\\\\\\\\\"; break;",
  "      case '\\n': out += \"\\\\n\"; break;",
  "      case '\\t': out += \"\\\\t\"; break;",
  "      default: out += c;",
  "    \x7d",
  "  \x7d",
  "  return out;",
  "\x7d",
  "",
  "std::unique_ptr<stan::model::model_base> load_model(const char* data) \x7b",
  "  std::stringstream in(data == nullptr ? \"\x7b\x7d\" : data);",
  "  stan::json::json_data context(in);",
  "  std::stringstream msg;",
  "  return std::unique_ptr<stan::model::model_base>(&new_model(context, 0, &msg));",
  "\x7d",
  "",
  "template <typename F>",
  "int guarded(char** err, F&& body) \x7b",
  "  try \x7b",
  "    body();",
  "    return 0;",
  "  \x7d catch (const std::exception& e) \x7b",
  "    if (err != nullptr) *err = copy_string(e.what());",
  "  \x7d catch (...) \x7b",
  "    if (err != nullptr) *err = copy_string(\"unknown C++ exception\");",
  "  \x7d",
  "  return 1;",
  "\x7d",
  "",
  "\x7d  // namespace",
  "",
  "STANBIND_EXPORT std::uint32_t stanbind_abi_version() \x7b return kAbiVersion; \x7d",
  "",
  "STANBIND_EXPORT void stanbind_free(void* ptr) \x7b std::free(ptr); \x7d",
  "",
  "STANBIND_EXPORT int stanbind_n_pars(const char* data, size_t* out, char** err) \x7b",
  "  return guarded(err, [&] \x7b",
  "    auto model = load_model(data);",
  "    *out = model->num_params_r();",
  "  \x7d);",
  "\x7d",
  "",
  "STANBIND_EXPORT int stanbind_param_names(const char* data, int kind, char** out_json, char** err) \x7b",
  "  return guarded(err, [&] \x7b",
  "    auto model = load_model(data);",
  "    std::vector<std::string> names;",
  "    switch (kind) \x7b",
  "      case 0: model->get_param_names(names, true, true); break;",
  "      case 1: model->constrained_param_names(names, true, true); break;",
  "      case 2: model->unconstrained_param_names(names, false, false); break;",
  "      default: throw std::domain_error(\"unknown parameter name kind\");",
  "    \x7d",
  "    std::string json = \"[\";",
  "    for (size_t i = 0; i < names.size(); ++i) \x7b",
  "      if (i > 0) json += \",\";",
  "      json += \"\\\"\" + json_escape(names[i]) + \"\\\"\";",
  "    \x7d",
  "    json += \"]\";",
  "    *out_json = copy_string(json);",
  "  \x7d);",
  "\x7d",
  "",
  "STANBIND_EXPORT int stanbind_write_array(const char* data, const double* upar, size_t n, int include_tparams,",
  "                                         int include_gqs, double** out, size_t* out_len, char** err) \x7b",
  "  return guarded(err, [&] \x7b",
  "    auto model = load_model(data);",
  "    Eigen::VectorXd params_r = Eigen::Map<const Eigen::VectorXd>(upar, n);",
  "    Eigen::VectorXd vars;",
  "    boost::ecuyer1988 rng(0);",
  "    std::stringstream msg;",
  "    model->write_array(rng, params_r, vars, include_tparams != 0, include_gqs != 0, &msg);",
  "    *out = copy_vector(vars, out_len);",
  "  \x7d);",
  "\x7d",
  "",
  "STANBIND_EXPORT int stanbind_unconstrain_array(const char* data, const double* cpar, size_t n, double** out,",
  "                                               size_t* out_len, char** err) \x7b",
  "  return guarded(err, [&] \x7b",
  "    auto model = load_model(data);",
  "    Eigen::VectorXd params_c = Eigen::Map<const Eigen::VectorXd>(cpar, n);",
  "    Eigen::VectorXd params_r;",
  "    std::stringstream msg;",
  "    model->unconstrain_array(params_c, params_r, &msg);",
  "    *out = copy_vector(params_r, out_len);",
  "  \x7d);",
  "\x7d",
  "",
  "STANBIND_EXPORT int stanbind_log_prob(const char* data, const double* upar, size_t n, int jacobian, double* out,",
  "                                      char** err) \x7b",
  "  return guarded(err, [&] \x7b",
  "    auto model = load_model(data);",
  "    Eigen::VectorXd params_r = Eigen::Map<const Eigen::VectorXd>(upar, n);",
  "    std::stringstream msg;",
  "    *out = jacobian != 0 ? model->log_prob_jacobian(params_r, &msg) : model->log_prob(params_r, &msg);",
  "  \x7d);",
  "\x7d",
  "",
  "STANBIND_EXPORT int stanbind_log_prob_grad(const char* data, const double* upar, size_t n, int jacobian,",
  "                                           double** out, size_t* out_len, char** err) \x7b",
  "  return guarded(err, [&] \x7b",
  "    auto model = load_model(data);",
  "    Eigen::VectorXd params_r = Eigen::Map<const Eigen::VectorXd>(upar, n);",
  "    Eigen::VectorXd gradient;",
  "    std::stringstream msg;",
  "    if (jacobian != 0) \x7b",
  "      stan::model::log_prob_grad<true, true>(*model, params_r, gradient, &msg);",
  "    \x7d else \x7b",
  "      stan::model::log_prob_grad<true, false>(*model, params_r, gradient, &msg);",
  "    \x7d",
  "    *out = copy_vector(gradient, out_len);",
  "  \x7d);",
  "\x7d"]

def source : String := String.join (lines.map (· ++ "\n"))

end CompiledModels.Glue
